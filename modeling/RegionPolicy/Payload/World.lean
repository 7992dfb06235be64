import RegionPolicy.Collection.SortedSet
import RegionPolicy.Payload.Selection
import RegionPolicy.Region.Definition

/-!
# Stored worlds

For a world-wide region the worlds and altitudes are stored. What is missing or cannot be read
comes from the settings of the region, and a stored shape that has drifted from the settings can
be told apart from one that still agrees with them.

## Main definitions

* `WorldPayload` — what is stored.
* `StoredGeometry.parseWorld` — the geometry of a stored text, under some settings.
* `WorldSettings.agreesWith` — whether a shape is the one that the settings ask for.
-/

namespace RegionPolicy

/-- A stored world-wide shape. -/
structure WorldPayload where
  /-- The names of the worlds. -/
  worlds : Option (List String) := none
  /-- The floor. -/
  minY : Option Float := none
  /-- The ceiling. -/
  maxY : Option Float := none
deriving DecidableEq

namespace WorldPayload

/-- The settings as they are stored. -/
def ofSettings (s : WorldSettings) : WorldPayload :=
  ⟨some s.resolvedWorlds, some s.minY, some s.maxY⟩

/-- The different worlds of a stored shape. -/
def resolvedWorlds (p : WorldPayload) : List String :=
  match p.worlds with
  | some worlds => dedupeWorlds worlds
  | none => []

/-- The written form of a stored world-wide shape. -/
def toJson (p : WorldPayload) : Json.Value :=
  .object
    [("worlds", .ofOption .texts p.worlds), ("minY", .ofOption .ofFloat p.minY),
      ("maxY", .ofOption .ofFloat p.maxY)]

open Json in
/-- The fields of a stored world-wide shape; none has to be there. -/
def fields : Json.Fields WorldPayload :=
  WorldPayload.mk <$> .optional "worlds" (Decoder.option (Decoder.list Decoder.text)) none
    <*> .optional "minY" (Decoder.option Decoder.float) none
    <*> .optional "maxY" (Decoder.option Decoder.float) none

/-- Reads a stored world-wide shape. -/
def decode : Json.Decoder WorldPayload := fields.decode

/-- What is stored in a text; nothing, if the text cannot be read. -/
def ofText (data : String) : WorldPayload :=
  match Json.decodeText decode data with
  | .ok p => p
  | .error _ => {}

/-- The shape of a payload, completed from the settings. -/
def toShape (p : WorldPayload) (settings : WorldSettings) : WorldShape where
  worlds := if p.resolvedWorlds = [] then settings.resolvedWorlds else p.resolvedWorlds
  minY := p.minY.getD settings.minY
  maxY := p.maxY.getD settings.maxY

end WorldPayload

/-- The geometry of a text that is stored for a world-wide region. -/
def StoredGeometry.parseWorld (data : String) (settings : WorldSettings) : StoredGeometry :=
  ⟨.polygon, [], .world ((WorldPayload.ofText data).toShape settings)⟩

/-- The names of worlds as they are compared: without case and order. -/
def worldNames (worlds : List String) : SortedSet String :=
  .ofList (worlds.map Text.lowercase)

/-- Whether a shape covers the worlds and altitudes of the settings. -/
def WorldSettings.agreesWith (settings : WorldSettings) : Shape → Bool
  | .world s =>
    (worldNames s.worlds).toList == (worldNames settings.resolvedWorlds).toList &&
      s.minY == settings.minY && s.maxY == settings.maxY
  | _ => false

end RegionPolicy
