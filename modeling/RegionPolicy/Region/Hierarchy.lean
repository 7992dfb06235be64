import RegionPolicy.Collection.Walk
import RegionPolicy.Region.Basic

/-!
# Arranging regions

Definitions name the region above by its id, and nothing keeps such an id from naming a region
that does not exist, or one that is below. The arrangement is a forest all the same. Regions are
settled one after the other, each behind the regions above it; whoever names a region that is
missing or not settled yet becomes a root. So a circle is cut at one place: at the last region
met when going up from the first of its regions that comes up.

## Main definitions

* `RegionIndex` — the regions in force, by their ids.
* `Draft` — a region before it is settled.
* `settle`, `settleChain` — settle one region, or one with all above that are not settled.
* `linkChildren` — tells every region which regions are directly below.
* `arrange` — the forest of a list of drafts.
-/

namespace RegionPolicy

/-- The regions in force, by their ids. -/
abbrev RegionIndex := SortedMap RegionId Region

/-- A region before it is settled: its definition and its shape. -/
structure Draft where
  /-- The region as it is written down. -/
  definition : RegionDefinition
  /-- Where it is. -/
  shape : Shape

/-- The id of a draft. -/
def Draft.id (d : Draft) : RegionId := d.definition.id

/-- Settles a draft below the region that it names, if that is settled, and else as a root. -/
def settle (d : Draft) (settled : RegionIndex) : RegionIndex :=
  settled.insert d.id (.under (d.definition.parent.bind settled.get?) d.definition d.shape)

/-- The drafts from a region upwards that are not settled yet, the lowest first. -/
def unsettledChain (drafts : SortedMap RegionId Draft) (settled : RegionIndex) (id : RegionId) :
    List Draft :=
  let unsettled (id : RegionId) : Bool := !settled.contains id
  drafts.follow (fun d => d.definition.parent.filter unsettled) ((some id).filter unsettled)

/-- Settles a region and all regions above that are not settled yet, from the top down. -/
def settleChain (drafts : SortedMap RegionId Draft) (settled : RegionIndex) (id : RegionId) :
    RegionIndex :=
  (unsettledChain drafts settled id).foldr settle settled

/-- The ids of the regions directly below. -/
def childrenOf (index : RegionIndex) (id : RegionId) : SortedSet RegionId :=
  .ofList ((index.entries.filter fun e => e.2.parent = some id).map Prod.fst)

/-- Tells every region which regions are directly below. -/
def linkChildren (index : RegionIndex) : RegionIndex :=
  index.mapValues fun id region => { region with children := childrenOf index id }

/-- The forest of a list of drafts. Of several drafts with one id the last counts; the regions
come up in the order of the list. -/
def arrange (drafts : List Draft) : RegionIndex :=
  let byId := SortedMap.ofList (drafts.map fun d => (d.id, d))
  linkChildren ((drafts.map Draft.id).foldl (settleChain byId) ∅)

end RegionPolicy
