import RegionPolicy.Json.Decode

/-!
# Decoding records

A record is written as an object, or as an array of its fields in their order. `Fields α` says
how to read the fields of a record of type `α` in either form; it is put together field by field
with `<$>` and `<*>`.

As an object a record is read in the order of the text: the first fault in the text is the one
that is reported, whichever field it is in. A field that the record does not know is skipped, if
it is well formed, and a field that it knows may not be repeated.

## Main definitions

* `Json.Fields` — what reading a record needs.
* `Json.Fields.required`, `Json.Fields.optional` — a single field.
* `Json.Fields.decode` — the decoder of the record.
-/

namespace RegionPolicy

namespace Json

/-- A fault with its place among the entries of an object. -/
structure FieldFault where
  /-- The place of the entry; a missing field counts behind all entries. -/
  position : Nat
  /-- What is wrong there. -/
  cause : DecodeError
deriving DecidableEq, Repr

/-- Of two faults the one that comes first. -/
def FieldFault.earlier (a b : FieldFault) : FieldFault :=
  if b.position < a.position then b else a

/-- How the fields of a record are read. -/
structure Fields (α : Type) where
  /-- The names of the fields, in their order. -/
  names : List String
  /-- Reads the fields from the entries of an object. -/
  fromEntries : List (Option String × Document) → Except FieldFault α
  /-- Reads the fields from the front of the items of an array, and gives the items left over. -/
  fromItems : List Document → Except DecodeError (α × List Document)

/-- The first entry of a name, with its place. -/
def findEntry (name : String) : List (Option String × Document) → Nat → Option (Nat × Document)
  | [], _ => none
  | (k, d) :: rest, i => if k = some name then some (i, d) else findEntry name rest (i + 1)

/-- The first place where the entries are no fields of a record: a name that cannot be read, a
known name that came before, or an unknown field that is not well formed. -/
def entryFault (names : List String) :
    List (Option String × Document) → List String → Nat → Option FieldFault
  | [], _, _ => none
  | (none, _) :: _, _, i => some ⟨i, .form⟩
  | (some k, d) :: rest, seen, i =>
    if names.contains k then
      if seen.contains k then some ⟨i, .form⟩ else entryFault names rest (k :: seen) (i + 1)
    else if d.isWellFormed then entryFault names rest seen (i + 1)
    else some ⟨i, .form⟩

namespace Fields

variable {α β : Type}

/-- A field of its own. `absent` is its value where it is missing, if it may be. -/
def field (name : String) (decode : Decoder α) (absent : Option α) : Fields α where
  names := [name]
  fromEntries entries :=
    match findEntry name entries 0 with
    | some (i, d) =>
      match decode d with
      | .ok a => .ok a
      | .error e => .error ⟨i, e⟩
    | none =>
      match absent with
      | some a => .ok a
      | none => .error ⟨entries.length, .form⟩
  fromItems
    | d :: rest =>
      match decode d with
      | .ok a => .ok (a, rest)
      | .error e => .error e
    | [] =>
      match absent with
      | some a => .ok (a, [])
      | none => .error .form

/-- A field that has to be there. -/
def required (name : String) (decode : Decoder α) : Fields α :=
  field name decode none

/-- A field with a value for where it is missing. -/
def optional (name : String) (decode : Decoder α) (default : α) : Fields α :=
  field name decode (some default)

/-- A record without fields. -/
def done (a : α) : Fields α where
  names := []
  fromEntries _ := .ok a
  fromItems ds := .ok (a, ds)

/-- A record made from the fields of another. -/
protected def map (f : α → β) (fs : Fields α) : Fields β where
  names := fs.names
  fromEntries entries := (fs.fromEntries entries).map f
  fromItems ds := (fs.fromItems ds).map fun (a, rest) => (f a, rest)

/-- The fields of two records, one behind the other. Of two faults the earlier one counts. -/
protected def seq (fs : Fields (α → β)) (gs : Fields α) : Fields β where
  names := fs.names ++ gs.names
  fromEntries entries :=
    match fs.fromEntries entries, gs.fromEntries entries with
    | .ok f, .ok a => .ok (f a)
    | .error e, .ok _ => .error e
    | .ok _, .error e => .error e
    | .error e, .error e' => .error (e.earlier e')
  fromItems ds :=
    match fs.fromItems ds with
    | .error e => .error e
    | .ok (f, ds) =>
      match gs.fromItems ds with
      | .error e => .error e
      | .ok (a, ds) => .ok (f a, ds)

instance : Functor Fields where
  map := Fields.map

instance : Seq Fields where
  seq fs gs := Fields.seq fs (gs ())

/-- Decodes a record. -/
def decode (fs : Fields α) : Decoder α
  | .object entries =>
    match entryFault fs.names entries [] 0, fs.fromEntries entries with
    | none, .ok a => .ok a
    | none, .error e => .error e.cause
    | some e, .ok _ => .error e.cause
    | some e, .error e' => .error (e.earlier e').cause
  | .array ds =>
    match fs.fromItems ds with
    | .ok (a, []) => .ok a
    | .ok (_, _ :: _) => .error .form
    | .error e => .error e
  | _ => .error .form

end Fields

end Json

end RegionPolicy
