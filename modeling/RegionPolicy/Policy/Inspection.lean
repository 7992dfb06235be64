import RegionPolicy.Policy.Graph

/-!
# Inspection

How the flags of a region come about: where each is bound along the lineage, which binding counts,
and whether that is the region's own.

## Main definitions

* `FlagResolution` with `FlagResolution.summary`.
* `BindingGraph.resolutions` — the resolutions of all flags bound along a lineage.
-/

namespace RegionPolicy

/-- How a flag comes about for a region. -/
structure FlagResolution where
  /-- The flag. -/
  key : FlagKey
  /-- The region for which the flag is looked at. -/
  target : RegionId
  /-- The bindings along the lineage, the topmost region first. -/
  history : List ResolvedBinding
  /-- The binding that counts. -/
  effective : Option ResolvedBinding
deriving DecidableEq

namespace FlagResolution

/-- Whether the region's own binding counts. -/
def isLocal (r : FlagResolution) : Bool :=
  r.effective.any fun b => b.region = r.target

/-- Whether the binding of a region above counts. -/
def isInherited (r : FlagResolution) : Bool :=
  r.effective.isSome && !r.isLocal

/-- Whether the region's own binding counts and there are others. -/
def overridesParent (r : FlagResolution) : Bool :=
  r.isLocal && 1 < r.history.length

/-- Whether there are bindings above, and none of them counts. -/
def blockedByInheritance (r : FlagResolution) : Bool :=
  r.effective.isNone && !r.history.isEmpty

/-- The binding before the last. -/
def parentSource (r : FlagResolution) : Option ResolvedBinding :=
  r.history.reverse[1]?

/-- One line about the flag. -/
def summary (r : FlagResolution) : String :=
  match r.effective with
  | some b =>
    let setting := r.key.id ++ " = " ++ b.binding.value.display
    if r.isLocal then setting else setting ++ " (inherited from " ++ b.region.text ++ ")"
  | none => r.key.id ++ " = <not effective>"

end FlagResolution

/-- How the flags of a region come about: all that are bound along its lineage, by id. -/
def BindingGraph.resolutions (g : BindingGraph) (target : RegionId) : List FlagResolution :=
  (rank (fun a b : FlagKey => (compare a.id b.id).isLE) g.keys).map fun key =>
    ⟨key, target, g.history key, g.effective key target⟩

end RegionPolicy
