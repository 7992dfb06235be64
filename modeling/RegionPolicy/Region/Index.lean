import RegionPolicy.Collection.Ranking
import RegionPolicy.Region.Hierarchy

/-!
# The region index

Which regions lie at a point, which of them counts there, and which lie above and below a region.

## Main definitions

* `RegionIndex.regionsAt`, `RegionIndex.dominantAt`, `RegionIndex.all`.
* `RegionIndex.lineage` — a region with the regions above it, the topmost first.
* `RegionIndex.descendants` — a region with the regions below it.
* `RegionIndex.replaceShape`, `RegionIndex.replaceShapes` — new shapes for some regions.
-/

namespace RegionPolicy

/-- Whether a region comes before another: by higher priority, then by lesser id. -/
def Region.outranks (a b : Region) : Bool :=
  if a.priority = b.priority then (compare a.id b.id).isLE else b.priority < a.priority

namespace RegionIndex

/-- The regions that contain a point, the one that counts first. -/
def regionsAt (index : RegionIndex) (p : Position) : List Region :=
  rank Region.outranks (index.values.filter fun r => r.contains p)

/-- The region that counts at a point. -/
def dominantAt (index : RegionIndex) (p : Position) : Option Region :=
  (index.regionsAt p).head?

/-- All regions, by id. -/
def all (index : RegionIndex) : List Region :=
  rank (fun a b => (compare a.id b.id).isLE) index.values

/-- A region with the regions above it, the topmost first. Ends where a region is missing or
would come up a second time; a missing region has no lineage. -/
def lineage (index : RegionIndex) (id : RegionId) : List Region :=
  (index.follow Region.parent (some id)).reverse

/-- The regions above a region, the nearest first. The region itself need not be in force. -/
def ancestors (index : RegionIndex) (r : Region) : List Region :=
  (index.erase r.id).follow Region.parent r.parent

/-- The ids of a region and of the regions below it, level by level, in each region's order. -/
def descendants (index : RegionIndex) (id : RegionId) : List RegionId :=
  index.explore (fun r => r.children.toList) id

/-- The index with a new shape for the region of a definition. A region that is not in force
comes into force by this, with nothing from the regions above. -/
def replaceShape (index : RegionIndex) (definition : RegionDefinition) (shape : Shape) :
    RegionIndex :=
  let region := match index.get? definition.id with
    | some region => region.withShape shape
    | none => .ofDefinition definition shape
  index.insert definition.id region

/-- The ids of the regions whose geometry is stored under an id. -/
def usersOf (index : RegionIndex) (artifact : ArtifactId) : List RegionId :=
  (index.entries.filter fun e => e.2.usesArtifact artifact).map Prod.fst

/-- The index with a new shape for all regions whose geometry is stored under an id. -/
def replaceShapes (index : RegionIndex) (artifact : ArtifactId) (shape : Shape) : RegionIndex :=
  index.mapValues fun _ r => if r.usesArtifact artifact then r.withShape shape else r

end RegionIndex

end RegionPolicy
