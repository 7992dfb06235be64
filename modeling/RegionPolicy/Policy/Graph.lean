import RegionPolicy.Policy.Verdict
import RegionPolicy.Region.Index

/-!
# The bindings of a lineage

All bindings that bear on a region: its own and those of the regions above it. For each flag they
come in two orders, by lineage and by rank of the regions.

## Main definitions

* `BindingGraph` with `BindingGraph.history`, `BindingGraph.dispatch`, `BindingGraph.keys`.
* `BindingGraph.source` — the region whose bindings of a flag count, and
  `BindingGraph.effective` — the binding that counts.
* `RegionIndex.bindings` — the bindings that bear on a region.
-/

namespace RegionPolicy

/-- The bindings of the regions of a lineage. -/
structure BindingGraph where
  /-- The bindings, the topmost region first, those of one region in the order of its
  definition. -/
  bindings : List ResolvedBinding
deriving DecidableEq

/-- Whether a binding is handed to a handler before another: by higher priority, then by lesser
id of its region. -/
def ResolvedBinding.outranks (a b : ResolvedBinding) : Bool :=
  if a.priority = b.priority then (compare a.region b.region).isLE else b.priority < a.priority

/-- The bindings in the definition of a region. -/
def Region.ownBindings (r : Region) : List ResolvedBinding :=
  r.definition.flags.map fun b => ⟨r.id, r.priority, b⟩

namespace BindingGraph

/-- The bindings of a flag, the topmost region first. -/
def history (g : BindingGraph) (key : FlagKey) : List ResolvedBinding :=
  g.bindings.filter fun b => b.binding.key = key

/-- The bindings of a flag, by rank of their regions. -/
def dispatch (g : BindingGraph) (key : FlagKey) : List ResolvedBinding :=
  rank ResolvedBinding.outranks (g.history key)

/-- The flags that are bound, in the order of declaration. -/
def keys (g : BindingGraph) : List FlagKey :=
  FlagKey.all.filter fun key => !(g.history key).isEmpty

/-- The region whose bindings of a flag count for the region `target`: the nearest that has any,
if the flag is inherited, and else `target` itself, if it has any. -/
def source (g : BindingGraph) (key : FlagKey) (target : RegionId) : Option RegionId :=
  let nearest := (g.history key).reverse
  if key.inherits then nearest.head?.map (·.region)
  else (nearest.find? fun b => b.region = target).map (·.region)

/-- The binding of a flag that counts for the region `target`: the last one of the region whose
bindings count. -/
def effective (g : BindingGraph) (key : FlagKey) (target : RegionId) : Option ResolvedBinding :=
  (g.source key target).bind fun source =>
    (g.history key).reverse.find? fun b => b.region = source

end BindingGraph

/-- The bindings that bear on a region: those of the regions above it and its own. -/
def RegionIndex.bindings (index : RegionIndex) (r : Region) : BindingGraph :=
  ⟨((index.ancestors r).reverse ++ [r]).flatMap Region.ownBindings⟩

end RegionPolicy
