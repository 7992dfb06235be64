import RegionPolicy.Flag.Binding
import RegionPolicy.Geometry.Selection
import RegionPolicy.Geometry.World
import RegionPolicy.Region.Id

/-!
# Region definitions

A region as it is written down: its place among the other regions, the people it belongs to, its
flag bindings, and the artifact under which its geometry is stored.

## Main definitions

* `WorldSettings` — the worlds and altitudes of a world-wide region.
* `Artifact` — where the geometry of a region is stored.
* `RegionDefinition` — a region as it is written down, with `RegionDefinition.toJson` and
  `RegionDefinition.decode`.
-/

namespace RegionPolicy

/-! ### World-wide regions -/

/-- Which worlds a world-wide region covers, and between which altitudes. -/
structure WorldSettings where
  /-- The names of the worlds, as they were written. -/
  worlds : List String := []
  /-- The floor. -/
  minY : Float := WorldShape.defaultMinY
  /-- The ceiling. -/
  maxY : Float := WorldShape.defaultMaxY
deriving DecidableEq

namespace WorldSettings

/-- The different worlds of the settings. -/
def resolvedWorlds (s : WorldSettings) : List String := dedupeWorlds s.worlds

/-- The shape that the settings ask for. -/
def toShape (s : WorldSettings) : Shape := .world ⟨s.resolvedWorlds, s.minY, s.maxY⟩

/-- The written form of the settings. -/
def toJson (s : WorldSettings) : Json.Value :=
  .object [("worlds", .texts s.worlds), ("min_y", .ofFloat s.minY), ("max_y", .ofFloat s.maxY)]

open Json in
/-- The fields of the settings; each has a default. -/
def fields : Json.Fields WorldSettings :=
  WorldSettings.mk <$> .optional "worlds" (Decoder.list Decoder.text) []
    <*> .optional "min_y" Decoder.float WorldShape.defaultMinY
    <*> .optional "max_y" Decoder.float WorldShape.defaultMaxY

/-- Reads settings. -/
def decode : Json.Decoder WorldSettings := fields.decode

end WorldSettings

/-! ### Ids -/

/-- Reads the id of a region. -/
def RegionId.decode : Json.Decoder RegionId := fun d => (Json.Decoder.text d).map RegionId.mk

/-- Whether an id is blank. -/
def RegionId.isBlank (id : RegionId) : Bool := Text.isBlank id.text

/-- Reads the id of an artifact. -/
def ArtifactId.decode : Json.Decoder ArtifactId := fun d => (Json.Decoder.text d).map ArtifactId.mk

/-! ### Artifacts -/

/-- Where the geometry of a region is stored. -/
structure Artifact where
  /-- The id under which it is stored. -/
  id : ArtifactId
  /-- A name for people. -/
  name : String := ""
  /-- The settings of a world-wide region; other regions have none. -/
  global : Option WorldSettings := none
deriving DecidableEq

namespace Artifact

/-- Whether the region is world-wide. -/
def isGlobal (a : Artifact) : Bool := a.global.isSome

/-- The written form of an artifact. -/
def toJson (a : Artifact) : Json.Value :=
  .object
    [("id", .text a.id.text), ("name", .text a.name),
      ("global", .ofOption WorldSettings.toJson a.global)]

open Json in
/-- The fields of an artifact; only the id has to be there. -/
def fields : Json.Fields Artifact :=
  Artifact.mk <$> .required "id" ArtifactId.decode
    <*> .optional "name" Decoder.text ""
    <*> .optional "global" (Decoder.option WorldSettings.decode) none

/-- Reads an artifact. -/
def decode : Json.Decoder Artifact := fields.decode

end Artifact

/-! ### Definitions -/

/-- A region as it is written down. -/
structure RegionDefinition where
  /-- The id of the region. -/
  id : RegionId
  /-- A name for people. -/
  name : String := ""
  /-- Where its geometry is stored. -/
  artifact : Option Artifact := none
  /-- Which region counts where several overlap: the one with the highest priority. Zero stands
  for the priority of the region above. -/
  priority : Int32 := 0
  /-- The ids or names of the owners. -/
  owners : List String := []
  /-- The ids or names of the members. -/
  members : List String := []
  /-- The ids of the groups. -/
  groupIds : List String := []
  /-- The region above. -/
  parent : Option RegionId := none
  /-- The flag bindings. A flag may be bound more than once. -/
  flags : List FlagBinding := []
deriving DecidableEq

namespace RegionDefinition

/-- The last binding of a flag. -/
def flag? (d : RegionDefinition) (key : FlagKey) : Option FlagBinding :=
  d.flags.reverse.find? fun b => b.key = key

/-- The written form of a definition. -/
def toJson (d : RegionDefinition) : Json.Value :=
  .object
    [("id", .text d.id.text), ("name", .text d.name),
      ("artifact", .ofOption Artifact.toJson d.artifact), ("priority", .ofInt d.priority.toInt),
      ("owners", .texts d.owners), ("members", .texts d.members),
      ("group_ids", .texts d.groupIds),
      ("parent", .ofOption (fun id => .text id.text) d.parent),
      ("flags", .ofList FlagBinding.toJson d.flags)]

open Json in
/-- The fields of a definition; only the id has to be there. -/
def fields : Json.Fields RegionDefinition :=
  RegionDefinition.mk <$> .required "id" RegionId.decode
    <*> .optional "name" Decoder.text ""
    <*> .optional "artifact" (Decoder.option Artifact.decode) none
    <*> .optional "priority" Decoder.int32 0
    <*> .optional "owners" (Decoder.list Decoder.text) []
    <*> .optional "members" (Decoder.list Decoder.text) []
    <*> .optional "group_ids" (Decoder.list Decoder.text) []
    <*> .optional "parent" (Decoder.option RegionId.decode) none
    <*> .optional "flags" (Decoder.list FlagBinding.decode) []

/-- Reads a definition. -/
def decode : Json.Decoder RegionDefinition := fields.decode

end RegionDefinition

end RegionPolicy
