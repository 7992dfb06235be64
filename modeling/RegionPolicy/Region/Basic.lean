import RegionPolicy.Collection.SortedSet
import RegionPolicy.Region.Definition

/-!
# Regions

A region in force: its definition, its shape, and what it has from the regions above it. The
people, the priority and the flags are settled when the regions are arranged and stay as they
are; the shape can be exchanged at any time.

## Main definitions

* `Region`, `Region.ofDefinition`, `Region.under`.
* `mergeFlags` — the bindings of a region over those of the region above.
-/

namespace RegionPolicy

/-! ### Merging bindings -/

/-- Puts a binding in the place of the binding of the same flag, or else at the end. -/
def putFlag (b : FlagBinding) : List FlagBinding → List FlagBinding
  | [] => [b]
  | c :: rest => if c.key = b.key then b :: rest else c :: putFlag b rest

/-- The bindings of two lists, one for each flag: the last one, in the place of the first. -/
def mergeFlags (above own : List FlagBinding) : List FlagBinding :=
  (above ++ own).foldl (fun merged b => putFlag b merged) []

/-! ### Regions -/

/-- A region in force. -/
structure Region where
  /-- The region as it is written down. -/
  definition : RegionDefinition
  /-- Where it is. -/
  shape : Shape
  /-- The ids or names of its owners and of those of the regions above. -/
  owners : SortedSet String
  /-- The ids or names of its members and of those of the regions above. -/
  members : SortedSet String
  /-- The ids of its groups and of those of the regions above. -/
  groups : SortedSet String
  /-- The priority that counts where regions overlap. -/
  priority : Int32
  /-- Its bindings over those of the regions above. -/
  flags : List FlagBinding
  /-- The region above. -/
  parent : Option RegionId
  /-- The regions directly below. -/
  children : SortedSet RegionId

/-- The texts that are not blank. -/
def nonBlank (texts : List String) : SortedSet String :=
  .ofList (texts.filter fun s => !Text.isBlank s)

namespace Region

/-- The id of a region. -/
def id (r : Region) : RegionId := r.definition.id

/-- Where its geometry is stored. -/
def artifact (r : Region) : Option Artifact := r.definition.artifact

/-- A region with nothing from the regions above. -/
def ofDefinition (definition : RegionDefinition) (shape : Shape) : Region where
  definition
  shape
  owners := .ofList definition.owners
  members := .ofList definition.members
  groups := nonBlank definition.groupIds
  priority := definition.priority
  flags := definition.flags
  parent := definition.parent
  children := ∅

/-- A region below another, or on top if there is none above. Below another it has the people of
both, the priority of the one above if it has none of its own, and its bindings over the ones
above. -/
def under (above : Option Region) (definition : RegionDefinition) (shape : Shape) : Region :=
  let region := ofDefinition definition shape
  match above with
  | none => { region with parent := none }
  | some above =>
    { region with
      owners := region.owners.union above.owners
      members := region.members.union above.members
      groups := region.groups.union above.groups
      priority := if region.priority = 0 then above.priority else region.priority
      flags := mergeFlags above.flags definition.flags }

/-- The region with another shape. -/
def withShape (r : Region) (shape : Shape) : Region := { r with shape }

/-- The name shown to people: the id if there is none. -/
def displayName (r : Region) : String :=
  if Text.isBlank r.definition.name then r.id.text else r.definition.name

/-- Whether the region contains the point. -/
def contains (r : Region) (p : Position) : Bool := r.shape.contains p

/-- The first binding of a flag among its own and those from above. -/
def flag? (r : Region) (key : FlagKey) : Option FlagBinding :=
  r.flags.find? fun b => b.key = key

/-- Whether the geometry is stored under this id. -/
def usesArtifact (r : Region) (id : ArtifactId) : Bool :=
  r.artifact.any fun a => a.id = id

end Region

end RegionPolicy
