import RegionPolicy.Json.Reader
import RegionPolicy.Decimal.Single
import RegionPolicy.DomainError

/-!
# Decoding documents

A decoder reads a value of some type from a document. It fails either because the document has
another form, or because a text in it breaks a rule of the domain, and then the rule is part of
the failure.

## Main definitions

* `Json.Decoder`, `Json.DecodeError`.
* `Json.DecodeError.message?`, `Json.DecodeError.messageInRecord?` — the report of a failure, with
  and without a known place.
* `Json.Decoder.text`, `Json.Decoder.float` and the like, for the leaves; `Json.Decoder.list`,
  `Json.Decoder.option` for the simplest compounds.
* `Json.Decoder.choice` — one of several names.
* `Json.splitTag` — a record that says in one of its fields what kind of record it is.
* `Json.decodeText` — reads a value from a text.
-/

namespace RegionPolicy

namespace Json

/-- Why a document could not be decoded. -/
inductive DecodeError where
  /-- The document has not the expected form. -/
  | form
  /-- A text breaks a rule of the domain. -/
  | domain (e : DomainError)
deriving DecidableEq, Repr

/-! ### Places in reports

A report ends in the place of the failure, such as ` at line 3 column 14`, if that is known. Reports
are given without their places, which are found by their form. So a part of the text that a report
quotes can be taken for a place. -/

/-- Splits a number off the end of a text that is given backwards. A number is the count of a line
or a column, and less than `2 ^ 64`. -/
def splitCount (backwards : List Char) : Option (Nat × List Char) :=
  let (digits, rest) := backwards.span Char.isDigit
  match (String.ofList digits.reverse).toNat? with
  | some n => if n < Nat.pow 2 64 then some (n, rest) else none
  | none => none

/-- Splits a word off the end of a text that is given backwards. -/
def splitWord (word : String) (backwards : List Char) : Option (List Char) :=
  let ending := word.toList.reverse
  if ending.isPrefixOf backwards then some (backwards.drop ending.length) else none

/-- The line that a report ends in, if it ends in a place, and the report without the place. -/
def splitPlace (report : String) : Option (Nat × String) := do
  let (_, rest) ← splitCount report.toList.reverse
  let rest ← splitWord " column " rest
  let (line, rest) ← splitCount rest
  let rest ← splitWord " at line " rest
  return (line, String.ofList rest.reverse)

/-- A report without the place that it ends in. -/
def withoutPlace (report : String) : String :=
  match splitPlace report with
  | some (_, rest) => rest
  | none => report

/-- What comes before the last ` at line ` of a text that is given backwards. -/
def beforeLine? : List Char → Option (List Char)
  | [] => none
  | c :: rest =>
    match splitWord " at line " (c :: rest) with
    | some before => some before
    | none => beforeLine? rest

/-- A report without all that its last ` at line ` begins. A place in line 0 is none, and is left
out before that. -/
def withoutLine (report : String) : String :=
  let shown := match splitPlace report with
    | some (0, rest) => rest
    | _ => report
  match beforeLine? shown.toList.reverse with
  | some before => String.ofList before.reverse
  | none => shown

/-- The report of a broken rule in a document that was decoded while it was read, so that the place
is known; a wrong form has none. -/
def DecodeError.message? : DecodeError → Option String
  | form => none
  | domain e => some (withoutPlace e.message)

/-- The report of a broken rule in a record that was read as a whole before it was decoded, so that
no place is known; a wrong form has none. -/
def DecodeError.messageInRecord? : DecodeError → Option String
  | form => none
  | domain e => some (withoutLine e.message)

/-- Reads a value from a document. -/
abbrev Decoder (α : Type) := Document → Except DecodeError α

namespace Decoder

/-! ### Leaves -/

/-- A text. -/
def text : Decoder String
  | .text s => .ok s
  | _ => .error .form

/-- A truth value. -/
def boolean : Decoder Bool
  | .boolean b => .ok b
  | _ => .error .form

/-- A float; integers are accepted. -/
def float : Decoder Float
  | .number n => .ok n.toFloat
  | _ => .error .form

/-- A value of single precision; integers are accepted, and rounded once. -/
def single : Decoder Single
  | .number (.integer i) => .ok (Single.ofInt i)
  | .number (.float x) => .ok (Single.ofFloat x)
  | _ => .error .form

/-- An integer from `low` up to below `high`. -/
def integerBetween (low high : Int) : Decoder Int
  | .number (.integer i) => if low ≤ i ∧ i < high then .ok i else .error .form
  | _ => .error .form

/-- A signed integer of 64 bits. -/
def int64 : Decoder Int64 := fun d =>
  (integerBetween (-Nat.pow 2 63) (Nat.pow 2 63) d).map Int64.ofInt

/-- A signed integer of 32 bits. -/
def int32 : Decoder Int32 := fun d =>
  (integerBetween (-Nat.pow 2 31) (Nat.pow 2 31) d).map Int32.ofInt

/-- An unsigned integer of 32 bits. -/
def uint32 : Decoder UInt32 := fun d =>
  (integerBetween 0 (Nat.pow 2 32) d).map fun i => UInt32.ofNat i.toNat

/-! ### Compounds -/

/-- The items of an array, read from the left. -/
def items {α : Type} (decode : Decoder α) : List Document → Except DecodeError (List α)
  | [] => .ok []
  | d :: rest =>
    match decode d with
    | .error e => .error e
    | .ok a =>
      match items decode rest with
      | .error e => .error e
      | .ok as => .ok (a :: as)

/-- An array. -/
def list {α : Type} (decode : Decoder α) : Decoder (List α)
  | .array ds => items decode ds
  | _ => .error .form

/-- The entries of an object, read from the left. -/
def namedItems {α : Type} (decode : Decoder α) :
    List (Option String × Document) → Except DecodeError (List (String × α))
  | [] => .ok []
  | (none, _) :: _ => .error .form
  | (some name, d) :: rest =>
    match decode d with
    | .error e => .error e
    | .ok a =>
      match namedItems decode rest with
      | .error e => .error e
      | .ok as => .ok ((name, a) :: as)

/-- An object whose names are not fixed. -/
def dictionary {α : Type} (decode : Decoder α) : Decoder (List (String × α))
  | .object entries => namedItems decode entries
  | _ => .error .form

/-- Two values in an array. -/
def pair {α β : Type} (first : Decoder α) (second : Decoder β) : Decoder (α × β)
  | .array [d, d'] =>
    match first d with
    | .error e => .error e
    | .ok a => (second d').map fun b => (a, b)
  | _ => .error .form

/-- A value, or null. -/
def option {α : Type} (decode : Decoder α) : Decoder (Option α)
  | .null => .ok none
  | d => (decode d).map some

/-- One of several names. A name may also stand as the only field of an object, over null. -/
def choice {α : Type} (names : List (String × α)) : Decoder α
  | .text s => find s
  | .object [(some s, .null)] => find s
  | _ => .error .form
where
  find (s : String) : Except DecodeError α :=
    match names.lookup s with
    | some a => .ok a
    | none => .error .form

end Decoder

/-! ### Tagged records -/

/-- Splits a record into its kind, which the field `tag` names, and its other fields. As an array
the kind comes first. The whole record has to be readable, and an object names its kind once. -/
def splitTag (tag : String) (d : Document) : Except DecodeError (String × Document) :=
  if d.isReadable then
    match d with
    | .object entries =>
      match entries.filter fun e => e.1 == some tag with
      | [(_, .text kind)] => .ok (kind, .object (entries.filter fun e => e.1 != some tag))
      | _ => .error .form
    | .array (.text kind :: rest) => .ok (kind, .array rest)
    | _ => .error .form
  else .error .form

/-! ### Texts -/

/-- Reads a value from a text. Nothing but white space may follow it. -/
def decodeText {α : Type} (decode : Decoder α) (s : String) : Except DecodeError α :=
  let t := Text.ofString s
  match decode t.document with
  | .error e => .error e
  | .ok a => if t.hasTrailing then .error .form else .ok a

/-- Reads a value from a plain value. -/
def decodeValue {α : Type} (decode : Decoder α) (v : Value) : Except DecodeError α :=
  decode (.ofValue v)

end Json

end RegionPolicy
