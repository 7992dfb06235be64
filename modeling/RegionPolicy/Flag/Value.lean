import RegionPolicy.Geometry.Position

/-!
# Flag values

What a flag can be set to: eleven kinds of value, each with a default, a short text for people and
a written form that names its kind.

## Main definitions

* `ValueKind`, `FlagValue`, `FlagValue.kind`, `FlagValue.default`.
* `FlagValue.display` — the short text.
* `FlagValue.toJson`, `FlagValue.decode` — the written form, a record with its kind as `type`.
-/

namespace RegionPolicy

/-- The kinds of flag values. -/
inductive ValueKind where
  | boolean
  | integer
  | double
  | text
  | color
  | list
  | actions
  | location
  | vector
  | sound
  | potion
deriving DecidableEq, Repr

namespace ValueKind

/-- The kinds in their order. -/
def all : List ValueKind :=
  [boolean, integer, double, text, color, list, actions, location, vector, sound, potion]

/-- The name of a kind. -/
def name : ValueKind → String
  | boolean => "boolean"
  | integer => "integer"
  | double => "double"
  | text => "text"
  | color => "color"
  | list => "list"
  | actions => "actions"
  | location => "location"
  | vector => "vector"
  | sound => "sound"
  | potion => "potion"

/-- The kind of this very name. -/
def ofName? (s : String) : Option ValueKind :=
  all.find? fun kind => kind.name == s

/-- Reads a kind by its name. -/
def decode : Json.Decoder ValueKind :=
  Json.Decoder.choice (all.map fun kind => (kind.name, kind))

/-- A kind is found by its name. -/
theorem ofName?_name (kind : ValueKind) : ofName? kind.name = some kind := by
  cases kind <;> decide

end ValueKind

/-- What a flag is set to. -/
inductive FlagValue where
  | boolean (enabled : Bool)
  | integer (value : Int64)
  | double (value : Float)
  | text (content : String)
  | color (hex : String)
  | list (entries : List String)
  /-- Ids of actions that the host runs, in this order. -/
  | actions (ids : List String)
  | location (position : Position)
  | vector (x y z : Float)
  | sound (id : String) (volume pitch : Single)
  | potion (effect : String) (amplifier durationTicks : Int32)
deriving DecidableEq

namespace FlagValue

/-! ### Kinds and parts -/

/-- The kind of a value. -/
def kind : FlagValue → ValueKind
  | boolean _ => .boolean
  | integer _ => .integer
  | double _ => .double
  | text _ => .text
  | color _ => .color
  | list _ => .list
  | actions _ => .actions
  | location _ => .location
  | vector .. => .vector
  | sound .. => .sound
  | potion .. => .potion

/-- The default value of a kind. -/
def default : ValueKind → FlagValue
  | .boolean => boolean true
  | .integer => integer 0
  | .double => double 0
  | .text => text ""
  | .color => color "#FFFFFF"
  | .list => list []
  | .actions => actions []
  | .location => location .origin
  | .vector => vector 0 0 0
  | .sound => sound "minecraft:block.note_block.pling" .one .one
  | .potion => potion "minecraft:speed" 0 200

@[simp] theorem kind_default (k : ValueKind) : (default k).kind = k := by
  cases k <;> rfl

/-- The truth value of a boolean. -/
def boolean? : FlagValue → Option Bool
  | boolean enabled => some enabled
  | _ => none

/-- The content of a text. -/
def text? : FlagValue → Option String
  | text content => some content
  | _ => none

/-- The ids of actions. -/
def actions? : FlagValue → Option (List String)
  | actions ids => some ids
  | _ => none

/-- The position of a location. -/
def location? : FlagValue → Option Position
  | location position => some position
  | _ => none

/-! ### Texts for people -/

/-- A number with at most two places, without trailing zeros and without a negative zero. -/
def numberText (x : Float) : String :=
  if isFinite x then
    let chars := (renderFixed 2 x).reverse.dropWhile (· == '0') |>.dropWhile (· == '.') |>.reverse
    if chars = ['-', '0'] then "0" else String.ofList chars
  else if x != x then "NaN"
  else if 0 < x then "inf"
  else "-inf"

/-- The greatest number of characters of a text that are shown. -/
def previewLimit : Nat := 60

/-- A text, or its beginning if it is long. -/
def preview (content : String) : String :=
  let chars := content.toList
  if chars.length ≤ previewLimit then content
  else String.ofList (chars.take previewLimit ++ ['…'])

/-- The value as it is shown to people. -/
def display : FlagValue → String
  | boolean enabled => if enabled then "true" else "false"
  | integer value => String.ofList (Json.integerChars value.toInt)
  | double value => numberText value
  | text content => preview content
  | color hex => hex
  | list entries => "[" ++ ", ".intercalate entries ++ "]"
  | actions ids => toString ids.length ++ " action(s)"
  | location p =>
    numberText p.x ++ ", " ++ numberText p.y ++ ", " ++ numberText p.z ++ " (" ++ p.world ++ ")"
  | vector x y z => numberText x ++ ", " ++ numberText y ++ ", " ++ numberText z
  | sound id volume pitch =>
    id ++ " (volume " ++ numberText volume.value ++ ", pitch " ++ numberText pitch.value ++ ")"
  | potion effect amplifier durationTicks =>
    effect ++ " " ++ String.ofList (Json.integerChars amplifier.toInt) ++ " (" ++
      String.ofList (Json.integerChars durationTicks.toInt) ++ " ticks)"

/-! ### The written form -/

/-- The fields of a value besides its kind. -/
def jsonFields : FlagValue → List (String × Json.Value)
  | boolean enabled => [("enabled", .boolean enabled)]
  | integer value => [("value", .ofInt value.toInt)]
  | double value => [("value", .ofFloat value)]
  | text content => [("content", .text content)]
  | color hex => [("hex", .text hex)]
  | list entries => [("entries", .texts entries)]
  | actions ids => [("actions", .texts ids)]
  | location position => [("position", position.toJson)]
  | vector x y z => [("x", .ofFloat x), ("y", .ofFloat y), ("z", .ofFloat z)]
  | sound id volume pitch =>
    [("sound", .text id), ("volume", .ofFloat volume.value), ("pitch", .ofFloat pitch.value)]
  | potion effect amplifier durationTicks =>
    [("effect", .text effect), ("amplifier", .ofInt amplifier.toInt),
      ("duration_ticks", .ofInt durationTicks.toInt)]

/-- The written form of a value: its kind and its fields. -/
def toJson (v : FlagValue) : Json.Value :=
  .object (("type", .text v.kind.name) :: v.jsonFields)

open Json in
/-- How the fields of a kind of value are read. A missing field has the value that it has in the
default of the kind. -/
def fields : ValueKind → Json.Fields FlagValue
  | .boolean => boolean <$> .optional "enabled" Decoder.boolean true
  | .integer => integer <$> .optional "value" Decoder.int64 0
  | .double => double <$> .optional "value" Decoder.float 0
  | .text => text <$> .optional "content" Decoder.text ""
  | .color => color <$> .optional "hex" Decoder.text "#FFFFFF"
  | .list => list <$> .optional "entries" (Decoder.list Decoder.text) []
  | .actions => actions <$> .optional "actions" (Decoder.list Decoder.text) []
  | .location => location <$> .optional "position" Position.decode .origin
  | .vector =>
    vector <$> .optional "x" Decoder.float 0
      <*> .optional "y" Decoder.float 0
      <*> .optional "z" Decoder.float 0
  | .sound =>
    sound <$> .optional "sound" Decoder.text "minecraft:block.note_block.pling"
      <*> .optional "volume" Decoder.single .one
      <*> .optional "pitch" Decoder.single .one
  | .potion =>
    potion <$> .optional "effect" Decoder.text "minecraft:speed"
      <*> .optional "amplifier" Decoder.int32 0
      <*> .optional "duration_ticks" Decoder.int32 200

/-- Reads a value: first its kind, then the fields of that kind. -/
def decode : Json.Decoder FlagValue := fun d =>
  match Json.splitTag "type" d with
  | .error e => .error e
  | .ok (name, rest) =>
    match ValueKind.ofName? name with
    | some kind => (fields kind).decode rest
    | none => .error .form

end FlagValue

end RegionPolicy
