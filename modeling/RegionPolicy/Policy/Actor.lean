import RegionPolicy.Json.Fields

/-!
# Actors

Who acts. An actor has an id of 128 bits, which is written as groups of 8, 4, 4, 4 and 12
hexadecimal digits, and a name.

## Main definitions

* `ActorId`, `ActorId.ofText?` — ids, and the spellings in which they are read.
* `Actor`, `Entity` — someone who acts, and something that takes part.
-/

namespace RegionPolicy

/-- The id of an actor, in its grouped form and in lower case. -/
structure ActorId where
  /-- The id as it is written. -/
  text : String
deriving DecidableEq, Repr, Inhabited

namespace ActorId

instance : Ord ActorId := ⟨compareOn text⟩

instance : Std.TransOrd ActorId := inferInstanceAs (Std.TransCmp (compareOn text))

instance : Std.LawfulEqOrd ActorId where
  eq_of_compare {a b} h := by
    have htext : a.text = b.text :=
      Std.LawfulEqOrd.eq_of_compare (show compare a.text b.text = .eq from h)
    cases a
    cases b
    simp_all

/-- Whether a character is a hexadecimal digit. -/
def isHexDigit (c : Char) : Bool :=
  c.isDigit || ('a' ≤ c && c ≤ 'f') || ('A' ≤ c && c ≤ 'F')

/-- The sizes of the groups but the last. -/
def groupSizes : List Nat := [8, 4, 4, 4]

/-- Puts hyphens between the groups. -/
def joinGroups : List Nat → List Char → List Char
  | [], digits => digits
  | n :: sizes, digits => digits.take n ++ '-' :: joinGroups sizes (digits.drop n)

/-- Takes the hyphens between the groups away. -/
def splitGroups : List Nat → List Char → Option (List Char)
  | [], digits => some digits
  | n :: sizes, cs =>
    match cs.drop n with
    | '-' :: rest => (splitGroups sizes rest).map (cs.take n ++ ·)
    | _ => none

/-- The id of 32 hexadecimal digits. -/
def ofDigits? (digits : List Char) : Option ActorId :=
  if digits.length = 32 ∧ digits.all isHexDigit then
    some ⟨String.ofList (joinGroups groupSizes (digits.map Char.toLower))⟩
  else none

/-- What is left of `cs` behind a given beginning, whose letters are in lower case. The case of
ASCII letters does not matter in `cs`. -/
def dropStart : List Char → List Char → Option (List Char)
  | [], cs => some cs
  | c :: start, d :: cs => if c = d.toLower then dropStart start cs else none
  | _ :: _, [] => none

/-- The id of a text: 32 hexadecimal digits, bare or in groups, and groups also in braces or
behind `urn:uuid:` in either case. -/
def ofText? (s : String) : Option ActorId :=
  let cs := s.toList
  let grouped (cs : List Char) : Option ActorId :=
    if cs.length = 36 then (splitGroups groupSizes cs).bind ofDigits? else none
  if cs.length = 32 then ofDigits? cs
  else if cs.length = 36 then grouped cs
  else if cs.length = 38 then
    if cs.head? = some '{' ∧ cs.getLast? = some '}' then grouped cs.tail.dropLast else none
  else (dropStart "urn:uuid:".toList cs).bind grouped

/-- Reads an id. -/
def decode : Json.Decoder ActorId := fun d =>
  match Json.Decoder.text d with
  | .error e => .error e
  | .ok s =>
    match ofText? s with
    | some id => .ok id
    | none => .error .form

end ActorId

/-- Someone who acts. -/
structure Actor where
  /-- The id. -/
  id : ActorId
  /-- The name, which may change and need not be unique. -/
  name : String
deriving DecidableEq

namespace Actor

/-- The written form of an actor. -/
def toJson (a : Actor) : Json.Value :=
  .object [("id", .text a.id.text), ("name", .text a.name)]

/-- The fields of an actor; both have to be there. -/
def fields : Json.Fields Actor :=
  Actor.mk <$> .required "id" ActorId.decode <*> .required "name" Json.Decoder.text

/-- Reads an actor. -/
def decode : Json.Decoder Actor := fields.decode

end Actor

/-- Something that takes part in an action. -/
structure Entity where
  /-- The id. -/
  id : ActorId
  /-- What it is. -/
  kind : String
deriving DecidableEq

namespace Entity

/-- The written form of an entity. -/
def toJson (e : Entity) : Json.Value :=
  .object [("id", .text e.id.text), ("kind", .text e.kind)]

/-- The fields of an entity; both have to be there. -/
def fields : Json.Fields Entity :=
  Entity.mk <$> .required "id" ActorId.decode <*> .required "kind" Json.Decoder.text

/-- Reads an entity. -/
def decode : Json.Decoder Entity := fields.decode

end Entity

end RegionPolicy
