import RegionPolicy.Json.Document
import RegionPolicy.Decimal.Reading

/-!
# Reading JSON text

The reader follows RFC 8259 strictly: no comments, no byte-order mark, no raw control characters
in texts, no numbers such as `01` or `1.`. It never fails. What it cannot read it leaves in the
document as a fault, so that the reader of a record meets the faults in the order of the text.

## Main definitions

* `Json.readString`, `Json.readNumber`, `Json.readValue` — the parts of the grammar. Each gives
  what it read and the characters behind it, none where the text stops being JSON.
* `Json.Text` — a document and whether anything follows it.
* `Json.Text.ofString`, `Json.parse?` — a whole text, and its plain value if there is no fault.
-/

namespace RegionPolicy

namespace Json

/-- The greatest number of arrays and objects around a value. -/
def maxDepth : Nat := 127

/-- The characters behind the white space at the front: spaces, tabs and line ends. -/
def skipBlank (cs : List Char) : List Char :=
  cs.dropWhile fun c => c = ' ' || c = '\t' || c = '\n' || c = '\r'

/-! ### Texts -/

/-- The value of a hexadecimal digit. -/
def hexValue? (c : Char) : Option Nat :=
  if '0' ≤ c && c ≤ '9' then some (c.toNat - '0'.toNat)
  else if 'a' ≤ c && c ≤ 'f' then some (c.toNat - 'a'.toNat + 10)
  else if 'A' ≤ c && c ≤ 'F' then some (c.toNat - 'A'.toNat + 10)
  else none

/-- The 16-bit unit of four hexadecimal digits. -/
def hexUnit? (a b c d : Char) : Option Nat :=
  match hexValue? a, hexValue? b, hexValue? c, hexValue? d with
  | some a, some b, some c, some d => some (((a * 16 + b) * 16 + c) * 16 + d)
  | _, _, _, _ => none

/-- Whether the unit is the first half of a surrogate pair. -/
def isLeading (n : Nat) : Bool := 0xD800 ≤ n && n < 0xDC00

/-- Whether the unit is the second half of a surrogate pair. -/
def isTrailing (n : Nat) : Bool := 0xDC00 ≤ n && n < 0xE000

/-- The character of a one-letter escape. -/
def unescape? (c : Char) : Option Char :=
  if c = '"' then some '"'
  else if c = '\\' then some '\\'
  else if c = '/' then some '/'
  else if c = 'b' then some '\x08'
  else if c = 'f' then some '\x0c'
  else if c = 'n' then some '\n'
  else if c = 'r' then some '\r'
  else if c = 't' then some '\t'
  else none

/-- A unit of a text: a character, or half a surrogate pair. -/
inductive TextUnit where
  | char (c : Char)
  | half (n : Nat)

/-- The units of a text up to its closing quote, and the characters behind it; nothing if the text
is not well formed. -/
def readUnits : List Char → Option (List TextUnit × List Char)
  | [] => none
  | '"' :: rest => some ([], rest)
  | '\\' :: 'u' :: a :: b :: c :: d :: rest =>
    match hexUnit? a b c d, readUnits rest with
    | some n, some (units, rest) =>
      some ((if isLeading n || isTrailing n then .half n else .char (Char.ofNat n)) :: units, rest)
    | _, _ => none
  | '\\' :: e :: rest =>
    match unescape? e, readUnits rest with
    | some c, some (units, rest) => some (.char c :: units, rest)
    | _, _ => none
  | c :: rest =>
    if c.toNat < 0x20 || c = '\\' then none
    else
      match readUnits rest with
      | some (units, rest) => some (.char c :: units, rest)
      | none => none

/-- The characters of some units: the halves of a surrogate pair are joined, and a half that
stands alone has no character. -/
def joinUnits : List TextUnit → Option (List Char)
  | [] => some []
  | .char c :: rest => (joinUnits rest).map (c :: ·)
  | .half n :: .half m :: rest =>
    if isLeading n && isTrailing m then
      (joinUnits rest).map (Char.ofNat (0x10000 + (n - 0xD800) * 0x400 + (m - 0xDC00)) :: ·)
    else none
  | .half _ :: _ => none

/-- A text behind its opening quote. The text is missing if half a surrogate pair stands alone in
it. -/
def readString (cs : List Char) : Option (Option String × List Char) :=
  (readUnits cs).map fun (units, rest) => ((joinUnits units).map String.ofList, rest)

/-! ### Numbers -/

/-- The value of a decimal digit. -/
def digitValue (c : Char) : Nat := c.toNat - '0'.toNat

/-- The digits at the front and the characters behind them. -/
def spanDigits (cs : List Char) : List Nat × List Char :=
  ((cs.takeWhile Char.isDigit).map digitValue, cs.dropWhile Char.isDigit)

/-- The natural number of some digits. -/
def ofDigits (ds : List Nat) : Nat :=
  ds.foldl (fun n d => n * 10 + d) 0

/-- The parts of a number's text. -/
structure NumberText where
  /-- Whether a minus sign stands in front. -/
  negative : Bool
  /-- The digits before the point. -/
  whole : List Nat
  /-- The digits behind the point, if there is one. -/
  places : Option (List Nat)
  /-- The exponent, if there is one. -/
  exponent : Option Int

/-- The digits before the point: one at least, and no zero in front of others. -/
def readWhole (cs : List Char) : Option (List Nat × List Char) :=
  match spanDigits cs with
  | ([], _) => none
  | (0 :: _ :: _, _) => none
  | (ds, rest) => some (ds, rest)

/-- The digits behind the point, if a point stands in front. -/
def readPlaces : List Char → Option (Option (List Nat) × List Char)
  | '.' :: rest =>
    match spanDigits rest with
    | ([], _) => none
    | (ds, rest) => some (some ds, rest)
  | cs => some (none, cs)

/-- The digits of an exponent with its sign. -/
def readExponentDigits (negative : Bool) (cs : List Char) : Option (Option Int × List Char) :=
  match spanDigits cs with
  | ([], _) => none
  | (ds, rest) => some (some (if negative then -(ofDigits ds : Int) else ofDigits ds), rest)

/-- The exponent, if a mark stands in front. -/
def readExponent : List Char → Option (Option Int × List Char)
  | c :: rest =>
    if c = 'e' || c = 'E' then
      match rest with
      | '+' :: rest => readExponentDigits false rest
      | '-' :: rest => readExponentDigits true rest
      | rest => readExponentDigits false rest
    else some (none, c :: rest)
  | [] => some (none, [])

/-- The parts of the number at the front, and the characters behind it. -/
def readNumberText (cs : List Char) : Option (NumberText × List Char) :=
  let (negative, cs) := match cs with
    | '-' :: rest => (true, rest)
    | cs => (false, cs)
  match readWhole cs with
  | none => none
  | some (whole, cs) =>
    match readPlaces cs with
    | none => none
    | some (places, cs) =>
      match readExponent cs with
      | none => none
      | some (exponent, rest) => some (⟨negative, whole, places, exponent⟩, rest)

/-- The number, unless it is beyond the floats. Without point and exponent it is an integer as
long as it fits 64 bits, signed or unsigned; minus zero is a float. -/
def NumberText.value? (t : NumberText) : Option Number :=
  let n := ofDigits t.whole
  if t.places.isNone && t.exponent.isNone && !t.negative && n < Nat.pow 2 64 then
    some (.integer n)
  else if t.places.isNone && t.exponent.isNone && t.negative && 0 < n && n ≤ Nat.pow 2 63 then
    some (.integer (-n))
  else
    (Gathered.ofDigits t.whole (t.places.getD []) (t.exponent.getD 0)).toFloat?.map fun f =>
      .float (if t.negative then -f else f)

/-- The number at the front. -/
def readNumber (cs : List Char) : Document × Option (List Char) :=
  match readNumberText cs with
  | none => (.malformed, none)
  | some (t, rest) =>
    match t.value? with
    | some n => (.number n, some rest)
    | none => (.refused, some rest)

/-! ### Values -/

/-- An array or object as it counts at its depth. -/
def sealDepth (depth : Nat) (d : Document) (rest : Option (List Char)) : Document :=
  if depth < maxDepth then d
  else if rest.isSome then .refused
  else .malformed

/-- The value `d` if the characters are those of its name. -/
def readName (name : List Char) (d : Document) (cs : List Char) : Document × Option (List Char) :=
  if name.isPrefixOf cs then (d, some (cs.drop name.length)) else (.malformed, none)

mutual

/-- The value at the front, inside `depth` arrays and objects. -/
def readValue : Nat → Nat → List Char → Document × Option (List Char)
  | 0, _, _ => (.malformed, none)
  | fuel + 1, depth, cs =>
    match skipBlank cs with
    | [] => (.malformed, none)
    | 'n' :: cs => readName ['u', 'l', 'l'] .null cs
    | 't' :: cs => readName ['r', 'u', 'e'] (.boolean true) cs
    | 'f' :: cs => readName ['a', 'l', 's', 'e'] (.boolean false) cs
    | '"' :: cs =>
      match readString cs with
      | none => (.malformed, none)
      | some (some s, rest) => (.text s, some rest)
      | some (none, rest) => (.refused, some rest)
    | '[' :: cs =>
      match skipBlank cs with
      | ']' :: rest => (sealDepth depth (.array []) (some rest), some rest)
      | cs =>
        let (items, rest) := readItems fuel (depth + 1) cs
        (sealDepth depth (.array items) rest, rest)
    | '{' :: cs =>
      match skipBlank cs with
      | '}' :: rest => (sealDepth depth (.object []) (some rest), some rest)
      | cs =>
        let (entries, rest) := readEntries fuel (depth + 1) cs
        (sealDepth depth (.object entries) rest, rest)
    | cs => readNumber cs

/-- The items of an array, up to its closing bracket. -/
def readItems : Nat → Nat → List Char → List Document × Option (List Char)
  | 0, _, _ => ([.malformed], none)
  | fuel + 1, depth, cs =>
    match readValue fuel depth cs with
    | (d, none) => ([d], none)
    | (d, some cs) =>
      match skipBlank cs with
      | ',' :: cs =>
        let (items, rest) := readItems fuel depth cs
        (d :: items, rest)
      | ']' :: rest => ([d], some rest)
      | _ => ([d, .malformed], none)

/-- The fields of an object, up to its closing brace. -/
def readEntries : Nat → Nat → List Char → List (Option String × Document) × Option (List Char)
  | 0, _, _ => ([(none, .malformed)], none)
  | fuel + 1, depth, cs =>
    match skipBlank cs with
    | '"' :: cs =>
      match readString cs with
      | none => ([(none, .malformed)], none)
      | some (name, cs) =>
        match skipBlank cs with
        | ':' :: cs =>
          match readValue fuel depth cs with
          | (d, none) => ([(name, d)], none)
          | (d, some cs) =>
            match skipBlank cs with
            | ',' :: cs =>
              let (entries, rest) := readEntries fuel depth cs
              ((name, d) :: entries, rest)
            | '}' :: rest => ([(name, d)], some rest)
            | _ => ([(name, d), (none, .malformed)], none)
        | _ => ([(name, .malformed)], none)
    | _ => ([(none, .malformed)], none)

end

/-! ### Whole texts -/

/-- What a text holds. -/
structure Text where
  /-- The document at its front. -/
  document : Document
  /-- Whether anything but white space follows the document. -/
  hasTrailing : Bool

/-- The content of a text. Every step of the reader uses up a character or is followed by one that
does, so twice the length is steps enough. -/
def Text.ofString (s : String) : Text :=
  let cs := s.toList
  let (d, rest) := readValue (2 * cs.length + 2) 0 cs
  ⟨d, !(skipBlank (rest.getD [])).isEmpty⟩

/-- The plain value of a text without faults. -/
def parse? (s : String) : Option Value :=
  let t := Text.ofString s
  if t.hasTrailing then none else t.document.toValue?

end Json

end RegionPolicy
