import RegionPolicy.Json.Value
import RegionPolicy.Collection.SortedMap

/-!
# JSON documents

A `Document` is what a JSON text holds, as far as the text can be read: the fields of an object
stand in the order of the text, repeated names included; a part that is well formed but has no
value is `refused`; and where the text stops being JSON the document ends in `malformed`.

That is what lets a record be read from a text field by field. Of two faults the one that comes
first in the text counts, and a field that the record does not know is only looked at for its
form.

## Main definitions

* `Json.Document` — a text's content with its faults.
* `Json.Document.toValue?` — the plain value, if there is no fault at all; of several fields with
  one name the last counts, and names are sorted.
* `Json.Document.ofValue` — a plain value as a document.
-/

namespace RegionPolicy

namespace Json

/-- The content of a JSON text. -/
inductive Document where
  | null
  | boolean (b : Bool)
  | number (n : Number)
  | text (s : String)
  /-- A well-formed part without a value: a number beyond the floats, a text with half a surrogate
  pair, or an array or object inside more than 127 others. -/
  | refused
  /-- The point where the text stops being JSON. -/
  | malformed
  | array (items : List Document)
  /-- The fields in the order of the text. A name that cannot be read is missing. -/
  | object (entries : List (Option String × Document))

namespace Document

instance : Inhabited Document := ⟨null⟩

mutual

/-- Whether the text is JSON throughout, with or without refused parts. -/
def isWellFormed : Document → Bool
  | malformed => false
  | array items => allWellFormed items
  | object entries => entriesWellFormed entries
  | _ => true

/-- Whether all items of an array are well formed. -/
def allWellFormed : List Document → Bool
  | [] => true
  | d :: rest => d.isWellFormed && allWellFormed rest

/-- Whether all fields of an object are well formed. -/
def entriesWellFormed : List (Option String × Document) → Bool
  | [] => true
  | (_, d) :: rest => d.isWellFormed && entriesWellFormed rest

end

mutual

/-- Whether every part of the text has a value. -/
def isReadable : Document → Bool
  | refused => false
  | malformed => false
  | array items => allReadable items
  | object entries => entriesReadable entries
  | _ => true

/-- Whether all items of an array have values. -/
def allReadable : List Document → Bool
  | [] => true
  | d :: rest => d.isReadable && allReadable rest

/-- Whether all fields of an object have names and values. -/
def entriesReadable : List (Option String × Document) → Bool
  | [] => true
  | (k, d) :: rest => k.isSome && d.isReadable && entriesReadable rest

end

mutual

/-- The plain value of a text without faults. Names are sorted, and of several fields with one
name the last counts. -/
def toValue? : Document → Option Value
  | null => some .null
  | boolean b => some (.boolean b)
  | number n => some (.number n)
  | text s => some (.text s)
  | refused => none
  | malformed => none
  | array items => (itemValues? items).map .array
  | object entries => (entryValues? entries).map fun fields =>
      .object (SortedMap.ofList fields).entries

/-- The values of the items of an array. -/
def itemValues? : List Document → Option (List Value)
  | [] => some []
  | d :: rest =>
    match d.toValue?, itemValues? rest with
    | some v, some vs => some (v :: vs)
    | _, _ => none

/-- The names and values of the fields of an object. -/
def entryValues? : List (Option String × Document) → Option (List (String × Value))
  | [] => some []
  | (k, d) :: rest =>
    match k, d.toValue?, entryValues? rest with
    | some k, some v, some vs => some ((k, v) :: vs)
    | _, _, _ => none

end

mutual

/-- The document of a plain value. -/
def ofValue : Value → Document
  | .null => null
  | .boolean b => boolean b
  | .number n => number n
  | .text s => text s
  | .array items => array (ofItems items)
  | .object fields => object (ofFields fields)

/-- The documents of the items of an array. -/
def ofItems : List Value → List Document
  | [] => []
  | v :: rest => ofValue v :: ofItems rest

/-- The entries of the fields of an object. -/
def ofFields : List (String × Value) → List (Option String × Document)
  | [] => []
  | (k, v) :: rest => (some k, ofValue v) :: ofFields rest

end

end Document

end Json

end RegionPolicy
