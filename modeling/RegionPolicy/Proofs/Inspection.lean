import RegionPolicy.Proofs.Diagnosis
import RegionPolicy.Proofs.Histories

/-!
# What an inspection shows

An inspection shows all flags that are bound along a lineage, each once, by their ids. Which binding
counts for a flag can be said from the definitions alone: going up from the region, the last binding
in the first definition that has any, if the flag is inherited, and else the last binding in the
region's own definition.

A flag that is shown is bound somewhere, so one of three things holds of it, and never two: its
binding is the region's own, or that of a region above, or the flag is not inherited and all of its
bindings are above.

## Main definitions

* `RegionIndex.deciding?` — the binding of a flag that counts for a region, by the definitions.

## Main results

* `RegionIndex.deciding?_eq_bind_supplier?` — the binding that counts is the last of the supplier.
* `RegionIndex.deciding?_eq_none_iff_of_bound` — when no binding of a flag counts.
* `BindingGraph.pairwise_resolutions`, `BindingGraph.mem_keys_resolutions_iff` — which flags are
  shown, and in which order.
* `FlagResolution.count_eq_one` — a flag that is bound is of one of three kinds.
* `Engine.inspect_complete` — what an inspection shows.
-/

namespace RegionPolicy

/-! ### What is shown -/

namespace BindingGraph

variable {g : BindingGraph} {target : RegionId}

theorem mem_keys_resolutions_iff {key : FlagKey} :
    key ∈ (g.resolutions target).map FlagResolution.key ↔ g.history key ≠ [] := by
  simp [resolutions, mem_keys_iff]

theorem eq_of_mem_resolutions {resolution : FlagResolution}
    (h : resolution ∈ g.resolutions target) :
    g.history resolution.key ≠ [] ∧ resolution =
      ⟨resolution.key, target, g.history resolution.key, g.effective resolution.key target⟩ := by
  obtain ⟨key, hkey, rfl⟩ := List.mem_map.mp h
  exact ⟨mem_keys_iff.mp (mem_rank.mp hkey), rfl⟩

/-- Flags are shown by their ids, each once. -/
theorem pairwise_resolutions (g : BindingGraph) (target : RegionId) :
    (g.resolutions target).Pairwise fun a b => compare a.key.id b.key.id = .lt := by
  have hkeys : (g.keys.map FlagKey.id).Nodup :=
    (List.filter_sublist.map FlagKey.id).nodup FlagKey.nodup_ids
  rw [resolutions, List.pairwise_map]
  exact pairwise_rank_compare FlagKey.id hkeys

end BindingGraph

namespace FlagResolution

variable {resolution : FlagResolution}

/-- **A flag that is bound is of one of three kinds.** -/
theorem count_eq_one (h : resolution.history ≠ []) :
    [resolution.isLocal, resolution.isInherited, resolution.blockedByInheritance].count true =
      1 := by
  cases heffective : resolution.effective with
  | none => simp [isInherited, isLocal, blockedByInheritance, heffective, h]
  | some b =>
    by_cases hb : b.region = resolution.target <;>
      simp [isInherited, isLocal, blockedByInheritance, heffective, hb]

theorem blockedByInheritance_iff (h : resolution.history ≠ []) :
    resolution.blockedByInheritance = true ↔ resolution.effective = none := by
  simp [blockedByInheritance, h]

end FlagResolution

/-! ### Which binding counts -/

theorem Region.binds_iff {r : Region} {key : FlagKey} :
    r.binds key = true ↔ key ∈ r.definition.flags.map FlagBinding.key := by
  simp [binds]

namespace RegionIndex

/-- The binding of a flag that counts for a region, by the definitions: the last one in the nearest
definition of the lineage that has any, if the flag is inherited, and else the last one in its
own. -/
def deciding? (index : RegionIndex) (r : Region) (key : FlagKey) : Option ResolvedBinding :=
  let last (s : Region) : Option ResolvedBinding :=
    (s.definition.flag? key).map fun b => ⟨s.id, s.priority, b⟩
  if key.inherits then ((index.lineage r.id).reverse.find? fun s => s.binds key).bind last
  else last r

variable {index : RegionIndex} {r : Region} {key : FlagKey}

theorem deciding?_eq_bind_supplier? (index : RegionIndex) (r : Region) (key : FlagKey) :
    index.deciding? r key =
      (index.supplier? r key).bind fun s => (s.bindingsOf key).getLast? := by
  simp only [deciding?, supplier?, ← Region.getLast?_bindingsOf]
  split
  · rw [List.getLast?_filter]
  · split
    · rfl
    · rename_i hbinds
      rw [Region.bindingsOf_eq_nil_iff.mpr (by simpa using hbinds)]
      rfl

theorem binds_of_supplier? {s : Region} (h : index.supplier? r key = some s) :
    s.binds key = true := by
  rw [supplier?] at h
  split at h
  · exact (List.mem_filter.mp (List.mem_of_getLast? h)).2
  · split at h
    · exact Option.some.inj h ▸ ‹_›
    · cases h

/-- A flag has no supplier just if no region binds it that could supply it. -/
theorem supplier?_eq_none_iff :
    index.supplier? r key = none ↔
      if key.inherits then ∀ s ∈ index.lineage r.id, s.binds key = false
      else r.binds key = false := by
  rw [supplier?]
  split
  · simp
  · split <;> simp_all

theorem deciding?_eq_none_iff : index.deciding? r key = none ↔ index.supplier? r key = none := by
  rw [deciding?_eq_bind_supplier?]
  cases hsupplier : index.supplier? r key with
  | none => simp
  | some s => simp [Region.bindingsOf_eq_nil_iff, binds_of_supplier? hsupplier]

/-- Of a flag that is bound no binding counts just if the flag is not inherited and all bindings are
above the region. -/
theorem deciding?_eq_none_iff_of_bound (hbound : ∃ s ∈ index.lineage r.id, s.binds key = true) :
    index.deciding? r key = none ↔ key.inherits = false ∧ r.binds key = false := by
  obtain ⟨s, hs, hbinds⟩ := hbound
  rw [deciding?_eq_none_iff, supplier?_eq_none_iff]
  split
  · rename_i hinherits
    refine iff_of_false (fun hnone => ?_) fun h => ?_
    · rw [hnone s hs] at hbinds
      cases hbinds
    · rw [h.1] at hinherits
      cases hinherits
  · rename_i hinherits
    simp [hinherits]

/-- The binding that counts is the region's own just if the region binds the flag. -/
theorem any_deciding?_iff (hindex : index.Keyed Region.id) (hr : index.get? r.id = some r) :
    ((index.deciding? r key).any fun b => b.region = r.id) = true ↔ r.binds key = true := by
  rw [deciding?_eq_bind_supplier?]
  constructor
  · intro hown
    obtain ⟨b, hb, hid⟩ := (Option.any_eq_true _ _).mp hown
    obtain ⟨s, hs, hlast⟩ := Option.bind_eq_some_iff.mp hb
    have hregion : b.region = s.id := Region.region_of_mem_bindingsOf (List.mem_of_getLast? hlast)
    have hid' : s.id = r.id := hregion ▸ of_decide_eq_true hid
    rw [← eq_of_mem_lineage hindex (mem_lineage_of_supplier? hr hs) (mem_lineage_self hr) hid']
    exact binds_of_supplier? hs
  · intro hbinds
    have hne : r.bindingsOf key ≠ [] := by
      rw [Ne, Region.bindingsOf_eq_nil_iff, hbinds]
      simp
    have hregion := Region.region_of_mem_bindingsOf (List.getLast_mem hne)
    rw [supplier?_of_binds hr hbinds, Option.bind_some, List.getLast?_eq_some_getLast hne,
      Option.any_some, hregion, decide_eq_true rfl]

/-- A flag has a history just if a region of the lineage binds it. -/
theorem history_bindings_ne_nil_iff (hr : index.get? r.id = some r) :
    (index.bindings r).history key ≠ [] ↔ ∃ s ∈ index.lineage r.id, s.binds key = true := by
  rw [history_bindings hr, Ne, List.flatMap_eq_nil_iff]
  simp [Region.bindingsOf_eq_nil_iff]

end RegionIndex

namespace Engine

variable {δ σ : Type}

/-- **What an inspection shows,** where nothing wrong is kept for the region. It shows the flags
that are bound along the lineage, by their ids, each once. Of each it names the binding that counts,
which is the one that a diagnosis names. That is the region's own just if the region binds the flag;
and each flag is either bound by the region, or inherited, or blocked, the last just if it is not
inherited and the region does not bind it. -/
theorem inspect_complete {e : Engine δ σ} {r : Region} (hindex : e.index.Keyed Region.id)
    (hr : e.index.get? r.id = some r) (hfresh : e.Fresh r) :
    (∀ key, key ∈ (e.inspect r).1.map FlagResolution.key ↔
        ∃ s ∈ e.index.lineage r.id, s.binds key = true) ∧
      (e.inspect r).1.Pairwise (fun a b => compare a.key.id b.key.id = .lt) ∧
      ∀ resolution ∈ (e.inspect r).1,
        resolution.target = r.id ∧
        resolution.history =
          (e.index.lineage r.id).flatMap (fun s => s.bindingsOf resolution.key) ∧
        resolution.effective = (e.effective r resolution.key).1 ∧
        resolution.effective = e.index.deciding? r resolution.key ∧
        [resolution.isLocal, resolution.isInherited, resolution.blockedByInheritance].count true =
          1 ∧
        (resolution.isLocal = true ↔ r.binds resolution.key = true) ∧
        (resolution.blockedByInheritance = true ↔
          resolution.key.inherits = false ∧ r.binds resolution.key = false) := by
  have hinspect : (e.inspect r).1 = (e.index.bindings r).resolutions r.id :=
    congrArg (BindingGraph.resolutions · r.id) (bindingsFor_eq_iff.mpr hfresh)
  rw [hinspect]
  refine ⟨fun key => ?_, BindingGraph.pairwise_resolutions _ _, fun resolution hresolution => ?_⟩
  · rw [BindingGraph.mem_keys_resolutions_iff, RegionIndex.history_bindings_ne_nil_iff hr]
  · obtain ⟨hbound, heq⟩ := BindingGraph.eq_of_mem_resolutions hresolution
    have hhistory : resolution.history = (e.index.bindings r).history resolution.key :=
      congrArg FlagResolution.history heq
    have hdeciding : resolution.effective = e.index.deciding? r resolution.key := by
      rw [RegionIndex.deciding?_eq_bind_supplier?, ← RegionIndex.effective_bindings hindex hr]
      exact congrArg FlagResolution.effective heq
    have htarget : resolution.target = r.id := congrArg FlagResolution.target heq
    rw [← hhistory] at hbound
    refine ⟨htarget, ?_, ?_, hdeciding, FlagResolution.count_eq_one hbound, ?_, ?_⟩
    · rw [hhistory, RegionIndex.history_bindings hr]
    · rw [hdeciding, effective_of_fresh hindex hr hfresh, RegionIndex.deciding?_eq_bind_supplier?]
    · rw [FlagResolution.isLocal, hdeciding, htarget]
      exact RegionIndex.any_deciding?_iff hindex hr
    · rw [FlagResolution.blockedByInheritance_iff hbound, hdeciding]
      rw [hhistory, RegionIndex.history_bindings_ne_nil_iff hr] at hbound
      exact RegionIndex.deciding?_eq_none_iff_of_bound hbound

open RegionIndex in
/-- Of the mill its own flags are shown and those of the weir, one of which it inherits and one
not. -/
theorem inspect_complete_mill :
    let e : Engine Unit Unit := { start () () .standard 1 true with index := weirIndex }
    e.index.Keyed Region.id ∧ e.index.get? mill.id = some mill ∧ e.Fresh mill ∧
      (∀ key, key ∈ (e.inspect mill).1.map FlagResolution.key ↔
        key = .build ∨ key = .pvp ∨ key = .tnt ∨ key = .worldedit) ∧
      ∀ resolution ∈ (e.inspect mill).1,
        (resolution.isLocal = true ↔ resolution.key = .build ∨ resolution.key = .pvp) ∧
        (resolution.blockedByInheritance = true ↔ resolution.key = .worldedit) := by
  intro e
  have hfresh : e.Fresh mill := by
    intro graph hgraph
    cases hgraph
  have hlineage : e.index.lineage mill.id = [weir, mill] :=
    ((isLineage_iff keyed_weirIndex get?_mill).mp isLineage_mill).symm
  obtain ⟨hshown, -, hkinds⟩ := inspect_complete keyed_weirIndex get?_mill hfresh
  have hkeys : ∀ key, key ∈ (e.inspect mill).1.map FlagResolution.key ↔
      key = .build ∨ key = .pvp ∨ key = .tnt ∨ key = .worldedit := by
    intro key
    have hweir : weir.binds key = true ↔ key ∈ [.build, .tnt, .worldedit] := Region.binds_iff
    have hmill : mill.binds key = true ↔ key ∈ [.build, .pvp, .build] := Region.binds_iff
    rw [hshown, hlineage]
    simp only [List.mem_cons, List.not_mem_nil, or_false, exists_eq_or_imp, exists_eq_left, hweir,
      hmill]
    tauto
  refine ⟨keyed_weirIndex, get?_mill, hfresh, hkeys, fun resolution hresolution => ?_⟩
  obtain ⟨-, -, -, -, -, hown, hblocked⟩ := hkinds resolution hresolution
  rw [hown, hblocked]
  rcases (hkeys _).mp (List.mem_map_of_mem hresolution) with h | h | h | h <;> rw [h] <;> decide

end Engine

end RegionPolicy
