import RegionPolicy.Decimal.Layout

/-!
# JSON values

A value keeps the fields of an object in the order in which they were put there. Numbers are
integers or floats, and the two are told apart: `1` is not `1.0`.

## Main definitions

* `Json.Number`, `Json.Value`.
* `Json.Value.render` — the text of a value, without spaces, everything beyond ASCII as it is.
-/

namespace RegionPolicy

namespace Json

/-- A number: an integer, or a finite float. -/
inductive Number where
  | integer (i : Int)
  | float (x : Float)
deriving DecidableEq

/-- The float nearest to the number. -/
def Number.toFloat : Number → Float
  | .integer i => Float.ofInt i
  | .float x => x

/-- A JSON value. -/
inductive Value where
  | null
  | boolean (b : Bool)
  | number (n : Number)
  | text (s : String)
  | array (items : List Value)
  | object (fields : List (String × Value))

namespace Value

instance : Inhabited Value := ⟨null⟩

/-- The number of a float; infinities and NaN have none and become null. -/
def ofFloat (x : Float) : Value :=
  if isFinite x then number (.float x) else null

/-- The number of an integer. -/
def ofInt (i : Int) : Value := number (.integer i)

/-- The number of a natural. -/
def ofNat (n : Nat) : Value := number (.integer n)

/-- The value of an option, null if there is none. -/
def ofOption {α : Type} (f : α → Value) : Option α → Value
  | some a => f a
  | none => null

/-- The array of the values of a list. -/
def ofList {α : Type} (f : α → Value) (l : List α) : Value := array (l.map f)

/-- The array of some texts. -/
def texts (l : List String) : Value := ofList text l

/-- The value of an object's field. -/
def get? : Value → String → Option Value
  | object fields, name => fields.lookup name
  | _, _ => none

end Value

/-! ### Text -/

/-- Numbers are positional from `1e-5` up to below `1e16`. -/
def numberLayout : NumberLayout where
  plainFrom := -5
  plainBelow := 16

/-- The characters of an integer. -/
def integerChars (i : Int) : List Char :=
  if i < 0 then '-' :: Nat.toDigits 10 i.natAbs else Nat.toDigits 10 i.natAbs

/-- The characters of a number. -/
def Number.chars : Number → List Char
  | .integer i => integerChars i
  | .float x => numberLayout.renderChars x

/-- How a character is written inside quotes: quotes, backslashes and control characters are
escaped, all others stand for themselves. -/
def escapeChar (c : Char) : List Char :=
  if c = '"' then ['\\', '"']
  else if c = '\\' then ['\\', '\\']
  else if 0x20 ≤ c.toNat then [c]
  else if c = '\x08' then ['\\', 'b']
  else if c = '\x0c' then ['\\', 'f']
  else if c = '\n' then ['\\', 'n']
  else if c = '\r' then ['\\', 'r']
  else if c = '\t' then ['\\', 't']
  else ['\\', 'u', '0', '0', Nat.digitChar (c.toNat / 16), Nat.digitChar (c.toNat % 16)]

/-- The characters of a quoted text. -/
def quotedChars (s : String) : List Char :=
  '"' :: (s.toList.flatMap escapeChar ++ ['"'])

mutual

/-- The characters of a value. -/
def Value.chars : Value → List Char
  | .null => ['n', 'u', 'l', 'l']
  | .boolean true => ['t', 'r', 'u', 'e']
  | .boolean false => ['f', 'a', 'l', 's', 'e']
  | .number n => n.chars
  | .text s => quotedChars s
  | .array items => '[' :: itemsChars items
  | .object fields => '{' :: fieldsChars fields

/-- The characters of the items of an array, up to its closing bracket. -/
def itemsChars : List Value → List Char
  | [] => [']']
  | v :: rest => v.chars ++ moreItemsChars rest

/-- The characters of the items behind the first one. -/
def moreItemsChars : List Value → List Char
  | [] => [']']
  | v :: rest => ',' :: (v.chars ++ moreItemsChars rest)

/-- The characters of the fields of an object, up to its closing brace. -/
def fieldsChars : List (String × Value) → List Char
  | [] => ['}']
  | (k, v) :: rest => quotedChars k ++ ':' :: (v.chars ++ moreFieldsChars rest)

/-- The characters of the fields behind the first one. -/
def moreFieldsChars : List (String × Value) → List Char
  | [] => ['}']
  | (k, v) :: rest => ',' :: (quotedChars k ++ ':' :: (v.chars ++ moreFieldsChars rest))

end

/-- The text of a value. -/
def Value.render (v : Value) : String :=
  String.ofList v.chars

end Json

end RegionPolicy
