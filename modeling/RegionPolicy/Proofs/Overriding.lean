import RegionPolicy.Proofs.Merging

/-!
# Bindings that override others

An inspection says of a flag that the region overrides its parent if its own binding counts and the
history of the flag is longer than one. The history has all bindings along the lineage, though, and
a region may bind a flag more than once. So what is said is right wherever a region above binds the
flag, and wherever the region binds it once; but a region that binds a flag twice, and is the only
one of its lineage to do so, is said to override a parent, and may have none.

## Main definitions

* `RegionIndex.BoundAbove` — a region above binds the flag.

## Main results

* `RegionIndex.one_lt_length_history_iff` — when the history of a flag is longer than one.
* `Engine.eq_of_mem_inspect` — what an inspection shows of one flag.
* `Engine.overridesParent_iff` — when a region is said to override its parent, and when it does.
-/

namespace RegionPolicy

namespace RegionIndex

variable {index : RegionIndex} {r : Region} {key : FlagKey}

/-! ### Regions above -/

/-- The regions above a region are the others of its lineage. -/
theorem mem_ancestors_iff (hindex : index.Keyed Region.id) (hr : index.get? r.id = some r)
    {s : Region} : s ∈ index.ancestors r ↔ s ∈ index.lineage r.id ∧ s.id ≠ r.id := by
  rw [lineage_eq_append hr, List.mem_append, List.mem_reverse, List.mem_singleton]
  constructor
  · exact fun hs => ⟨.inl hs, SortedMap.key_ne_of_mem_follow_erase hindex hs⟩
  · rintro ⟨hs | rfl, hne⟩
    · exact hs
    · exact absurd rfl hne

/-- A region of the lineage other than the region itself binds the flag. -/
def BoundAbove (index : RegionIndex) (r : Region) (key : FlagKey) : Prop :=
  ∃ s ∈ index.lineage r.id, s.id ≠ r.id ∧ s.binds key = true

theorem boundAbove_iff_exists_mem_ancestors (hindex : index.Keyed Region.id)
    (hr : index.get? r.id = some r) :
    index.BoundAbove r key ↔ ∃ s ∈ index.ancestors r, s.binds key = true := by
  simp only [BoundAbove, mem_ancestors_iff hindex hr, and_assoc]

/-- Nothing is bound above a root. -/
theorem not_boundAbove_of_root (hindex : index.Keyed Region.id) (hr : index.get? r.id = some r)
    (hroot : r.parent = none) : ¬ index.BoundAbove r key := by
  rw [boundAbove_iff_exists_mem_ancestors hindex hr, ancestors, hroot, SortedMap.follow_none]
  rintro ⟨s, hs, -⟩
  cases hs

/-! ### Long histories -/

/-- The history of a flag has the bindings from above and the region's own. -/
theorem length_history_bindings (hr : index.get? r.id = some r) (key : FlagKey) :
    ((index.bindings r).history key).length =
      ((index.ancestors r).reverse.flatMap fun s => s.bindingsOf key).length +
        (r.bindingsOf key).length := by
  rw [history_bindings hr, lineage_eq_append hr, List.flatMap_append, List.length_append,
    List.flatMap_singleton]

/-- There are bindings from above just if a region above binds the flag. -/
theorem length_flatMap_ancestors_pos_iff (hindex : index.Keyed Region.id)
    (hr : index.get? r.id = some r) :
    0 < ((index.ancestors r).reverse.flatMap fun s => s.bindingsOf key).length ↔
      index.BoundAbove r key := by
  rw [boundAbove_iff_exists_mem_ancestors hindex hr, List.length_pos_iff, Ne,
    List.flatMap_eq_nil_iff]
  simp [Region.bindingsOf_eq_nil_iff]

/-- **When the history of a flag is longer than one,** for a region that binds the flag: if it is
bound above as well, or else if the region binds it more than once. -/
theorem one_lt_length_history_iff (hindex : index.Keyed Region.id) (hr : index.get? r.id = some r)
    (hbinds : r.binds key = true) :
    1 < ((index.bindings r).history key).length ↔
      index.BoundAbove r key ∨ 1 < (r.bindingsOf key).length := by
  have hown : 0 < (r.bindingsOf key).length := by
    rw [List.length_pos_iff, Ne, Region.bindingsOf_eq_nil_iff, hbinds]
    simp
  rw [length_history_bindings hr, ← length_flatMap_ancestors_pos_iff hindex hr]
  omega

end RegionIndex

/-! ### What is said of overriding -/

namespace Engine

variable {δ σ : Type} {e : Engine δ σ} {r : Region}

theorem inspect_of_fresh (hfresh : e.Fresh r) :
    (e.inspect r).1 = (e.index.bindings r).resolutions r.id :=
  congrArg (BindingGraph.resolutions · r.id) (bindingsFor_eq_iff.mpr hfresh)

/-- A flag is shown if the region binds it. -/
theorem exists_mem_inspect_of_binds (hr : e.index.get? r.id = some r) (hfresh : e.Fresh r)
    {key : FlagKey} (hbinds : r.binds key = true) :
    ∃ resolution ∈ (e.inspect r).1, resolution.key = key := by
  rw [← List.mem_map, inspect_of_fresh hfresh, BindingGraph.mem_keys_resolutions_iff,
    RegionIndex.history_bindings_ne_nil_iff hr]
  exact ⟨r, RegionIndex.mem_lineage_self hr, hbinds⟩

section Shown

variable (hindex : e.index.Keyed Region.id) (hr : e.index.get? r.id = some r) (hfresh : e.Fresh r)
  {resolution : FlagResolution} (h : resolution ∈ (e.inspect r).1)

include hindex hr hfresh h

/-- What an inspection shows of one flag, where nothing wrong is kept for the region. -/
theorem eq_of_mem_inspect :
    resolution = ⟨resolution.key, r.id, (e.index.bindings r).history resolution.key,
      e.index.deciding? r resolution.key⟩ := by
  rw [RegionIndex.deciding?_eq_bind_supplier?, ← RegionIndex.effective_bindings hindex hr]
  exact (BindingGraph.eq_of_mem_resolutions (inspect_of_fresh hfresh ▸ h)).2

theorem isLocal_iff_of_mem_inspect :
    resolution.isLocal = true ↔ r.binds resolution.key = true := by
  rw [eq_of_mem_inspect hindex hr hfresh h]
  exact RegionIndex.any_deciding?_iff hindex hr

/-- The region's own binding counts just if the region binds the flag. -/
theorem exists_own_iff_of_mem_inspect :
    (∃ b ∈ resolution.effective, b.region = r.id) ↔ r.binds resolution.key = true := by
  have htarget : resolution.target = r.id :=
    congrArg FlagResolution.target (eq_of_mem_inspect hindex hr hfresh h)
  rw [← isLocal_iff_of_mem_inspect hindex hr hfresh h, FlagResolution.isLocal, htarget,
    Option.any_eq_true]
  simp only [decide_eq_true_eq, Option.mem_def]

/-- A region is said to override its parent if it binds the flag, and either the flag is bound above
as well or the region binds it more than once. -/
theorem overridesParent_iff_of_mem_inspect :
    resolution.overridesParent = true ↔
      r.binds resolution.key = true ∧
        (e.index.BoundAbove r resolution.key ∨ 1 < (r.bindingsOf resolution.key).length) := by
  have hhistory : resolution.history = (e.index.bindings r).history resolution.key :=
    congrArg FlagResolution.history (eq_of_mem_inspect hindex hr hfresh h)
  rw [FlagResolution.overridesParent, Bool.and_eq_true,
    isLocal_iff_of_mem_inspect hindex hr hfresh h, decide_eq_true_iff, hhistory]
  exact and_congr_right (RegionIndex.one_lt_length_history_iff hindex hr)

end Shown

/-- **When a region is said to override its parent,** where nothing wrong is kept for it: if its own
binding counts, and either a region above binds the flag or the region itself binds it more than
once. That is right, for its own binding counts and the flag is bound above, unless the flag is
bound nowhere above and the region binds it more than once. -/
theorem overridesParent_iff (hindex : e.index.Keyed Region.id) (hr : e.index.get? r.id = some r)
    (hfresh : e.Fresh r) {resolution : FlagResolution} (h : resolution ∈ (e.inspect r).1) :
    let own := ∃ b ∈ resolution.effective, b.region = r.id
    let above := e.index.BoundAbove r resolution.key
    let count := (r.bindingsOf resolution.key).length
    (resolution.overridesParent = true ↔ own ∧ (above ∨ 1 < count)) ∧
      ((resolution.overridesParent = true ↔ own ∧ above) ↔ (above ∨ count ≤ 1)) := by
  intro own above count
  have hown : own ↔ r.binds resolution.key = true :=
    exists_own_iff_of_mem_inspect hindex hr hfresh h
  have hsaid : resolution.overridesParent = true ↔ own ∧ (above ∨ 1 < count) := by
    rw [hown]
    exact overridesParent_iff_of_mem_inspect hindex hr hfresh h
  refine ⟨hsaid, ?_⟩
  rw [hsaid, ← Nat.not_lt]
  by_cases hlt : 1 < count
  · have hbinds : own := by
      rw [hown, ← Bool.not_eq_false, ← Region.bindingsOf_eq_nil_iff]
      exact List.ne_nil_of_length_pos (Nat.zero_lt_of_lt hlt)
    simp [hlt, hbinds]
  · simp [hlt]

open RegionIndex in
/-- The mill, which turns building off and on again, overrides the weir above it. -/
theorem overridesParent_iff_mill :
    let e : Engine Unit Unit := { start () () .standard 1 true with index := weirIndex }
    e.index.Keyed Region.id ∧ e.index.get? mill.id = some mill ∧ e.Fresh mill ∧
      ∃ resolution ∈ (e.inspect mill).1, resolution.key = .build ∧
        1 < (mill.bindingsOf resolution.key).length ∧ e.index.BoundAbove mill resolution.key ∧
        resolution.overridesParent = true := by
  intro e
  have hfresh : e.Fresh mill := by
    intro graph hgraph
    cases hgraph
  have hbinds : mill.binds .build = true := by decide
  obtain ⟨resolution, hmem, hkey⟩ := exists_mem_inspect_of_binds get?_mill hfresh hbinds
  have hown := (exists_own_iff_of_mem_inspect keyed_weirIndex get?_mill hfresh hmem).mpr
    (hkey ▸ hbinds)
  have habove : e.index.BoundAbove mill resolution.key := by
    refine ⟨weir, ?_, by decide, by rw [hkey]; decide⟩
    rw [← (isLineage_iff keyed_weirIndex get?_mill).mp isLineage_mill]
    exact List.mem_cons_self
  exact ⟨keyed_weirIndex, get?_mill, hfresh, resolution, hmem, hkey, by rw [hkey]; decide, habove,
    (overridesParent_iff keyed_weirIndex get?_mill hfresh hmem).1.mpr ⟨hown, .inl habove⟩⟩

/-- **The orchard is said to override a parent** in building, which it binds twice, and has none. -/
theorem orchard_overrides_none :
    let e := orchardEngine.reload.2
    e.index.Keyed Region.id ∧
      ∃ r, e.index.get? r.id = some r ∧ e.Fresh r ∧ r.parent = none ∧
        ∃ resolution ∈ (e.inspect r).1, resolution.key = .build ∧
          resolution.overridesParent = true ∧ ¬ e.index.BoundAbove r resolution.key := by
  intro e
  have hindex := keyed_reload load_orchardEngine
  obtain ⟨r, hr, hroot, hflags⟩ := exists_get?_orchardEngine orchard.id
    (fun r => r.parent = none ∧ r.definition.flags = orchard.flags) (by decide +kernel)
  have hfresh := fresh_reload load_orchardEngine r
  have hbinds : r.binds .build = true := by
    rw [Region.binds, hflags]
    rfl
  have hcount : 1 < (r.bindingsOf .build).length := by
    rw [Region.bindingsOf, hflags, List.length_map]
    decide
  obtain ⟨resolution, hmem, hkey⟩ := exists_mem_inspect_of_binds hr hfresh hbinds
  refine ⟨hindex, r, hr, hfresh, hroot, resolution, hmem, hkey, ?_,
    RegionIndex.not_boundAbove_of_root hindex hr hroot⟩
  rw [overridesParent_iff_of_mem_inspect hindex hr hfresh hmem, hkey]
  exact ⟨hbinds, .inr hcount⟩

end Engine

end RegionPolicy
