import RegionPolicy.Proofs.Lineage

/-!
# Which bindings count

A flag that is inherited is supplied by the nearest region of the lineage that binds it, any other
flag by the region itself. A binding graph finds the supplier by looking at bindings in the order of
the lineage, and hands out bindings in the order of the regions' priorities. Both come to the same:
what is handed out for a flag are the supplier's own bindings, in the order of its definition, and
no priority has a say.

## Main definitions

* `Region.binds`, `Region.bindingsOf` — the bindings of a flag in the definition of a region.
* `RegionIndex.supplier?` — the region that supplies a flag.

## Main results

* `RegionIndex.history_bindings` — the history of a flag goes through the lineage.
* `RegionIndex.source_bindings` — the source of a flag is its supplier.
* `RegionIndex.filter_dispatch_bindings` — what is handed out for a region is what it binds.
-/

namespace RegionPolicy

/-! ### Own bindings -/

/-- Whether the definition of a region binds a flag. -/
def Region.binds (r : Region) (key : FlagKey) : Bool :=
  r.definition.flags.any fun b => b.key = key

/-- The bindings of a flag in the definition of a region, in the order of the definition. -/
def Region.bindingsOf (r : Region) (key : FlagKey) : List ResolvedBinding :=
  (r.definition.flags.filter fun b => b.key = key).map fun b => ⟨r.id, r.priority, b⟩

namespace Region

theorem filter_ownBindings (r : Region) (key : FlagKey) :
    (r.ownBindings.filter fun b => b.binding.key = key) = r.bindingsOf key := by
  rw [ownBindings, bindingsOf, List.filter_map]
  rfl

theorem mem_bindingsOf {r : Region} {key : FlagKey} {b : ResolvedBinding} :
    b ∈ r.bindingsOf key ↔
      b.region = r.id ∧ b.priority = r.priority ∧ b.binding ∈ r.definition.flags ∧
        b.binding.key = key := by
  simp only [bindingsOf, List.mem_map, List.mem_filter, decide_eq_true_eq]
  constructor
  · rintro ⟨c, ⟨hc, hkey⟩, rfl⟩
    exact ⟨rfl, rfl, hc, hkey⟩
  · rintro ⟨hregion, hpriority, hb, hkey⟩
    exact ⟨b.binding, ⟨hb, hkey⟩, by rw [← hregion, ← hpriority]⟩

theorem region_of_mem_bindingsOf {r : Region} {key : FlagKey} {b : ResolvedBinding}
    (h : b ∈ r.bindingsOf key) : b.region = r.id :=
  (mem_bindingsOf.mp h).1

theorem bindingsOf_eq_nil_iff {r : Region} {key : FlagKey} :
    r.bindingsOf key = [] ↔ r.binds key = false := by
  simp [bindingsOf, binds]

/-- The last binding of a flag names the region, if there is one. -/
theorem map_region_getLast?_bindingsOf (r : Region) (key : FlagKey) :
    ((r.bindingsOf key).getLast?).map ResolvedBinding.region =
      if r.binds key then some r.id else none := by
  split
  · rename_i h
    have hne : r.bindingsOf key ≠ [] := by
      rw [Ne, bindingsOf_eq_nil_iff, h]
      simp
    rw [List.getLast?_eq_some_getLast hne, Option.map_some,
      region_of_mem_bindingsOf (List.getLast_mem hne)]
  · rename_i h
    rw [bindingsOf_eq_nil_iff.mpr (by simpa using h)]
    rfl

end Region

namespace RegionIndex

/-- The region that supplies a flag for another: the last of the lineage that binds it, if the flag
is inherited, and else the region itself, if it binds it. -/
def supplier? (index : RegionIndex) (r : Region) (key : FlagKey) : Option Region :=
  if key.inherits then ((index.lineage r.id).filter fun s => s.binds key).getLast?
  else if r.binds key then some r else none

variable {index : RegionIndex} {r : Region}

theorem mem_lineage_of_supplier? (hr : index.get? r.id = some r) {key : FlagKey} {s : Region}
    (h : index.supplier? r key = some s) : s ∈ index.lineage r.id := by
  rw [supplier?] at h
  split at h
  · exact (List.mem_filter.mp (List.mem_of_getLast? h)).1
  · split at h
    · rw [← Option.some.inj h]
      exact mem_lineage_self hr
    · cases h

/-- A region that binds a flag supplies it itself. -/
theorem supplier?_of_binds (hr : index.get? r.id = some r) {key : FlagKey} (h : r.binds key) :
    index.supplier? r key = some r := by
  rw [supplier?, lineage_eq_append hr, List.filter_append, List.filter_singleton, h, cond_true,
    List.getLast?_append, if_pos rfl]
  simp

/-! ### The orders of a binding graph -/

/-- **The history of a flag goes through the lineage,** from the root to the region. -/
theorem history_bindings (hr : index.get? r.id = some r) (key : FlagKey) :
    (index.bindings r).history key = (index.lineage r.id).flatMap fun s => s.bindingsOf key := by
  rw [bindings_eq hr, BindingGraph.history, List.filter_flatMap]
  exact List.flatMap_congr fun s _ => s.filter_ownBindings key

theorem mem_history_bindings (hr : index.get? r.id = some r) {key : FlagKey}
    {b : ResolvedBinding} :
    b ∈ (index.bindings r).history key ↔ ∃ s ∈ index.lineage r.id, b ∈ s.bindingsOf key := by
  rw [history_bindings hr, List.mem_flatMap]

/-- The bindings of one region in a history are those of its definition. -/
theorem filter_history_bindings (hindex : index.Keyed Region.id) (hr : index.get? r.id = some r)
    (key : FlagKey) {s : Region} (hs : s ∈ index.lineage r.id) :
    ((index.bindings r).history key).filter (fun b => b.region = s.id) = s.bindingsOf key := by
  have hown : ∀ t ∈ index.lineage r.id,
      ((t.bindingsOf key).filter fun b => b.region = s.id) =
        if t.id = s.id then s.bindingsOf key else [] := by
    intro t ht
    split
    · rename_i hts
      rw [eq_of_mem_lineage hindex ht hs hts, List.filter_eq_self]
      exact fun b hb => by simpa using Region.region_of_mem_bindingsOf hb
    · rename_i hts
      rw [List.filter_eq_nil_iff]
      intro b hb
      simpa [Region.region_of_mem_bindingsOf hb] using hts
  rw [history_bindings hr, List.filter_flatMap, List.flatMap_congr hown]
  exact flatMap_ite_of_nodup (nodup_lineage hindex r.id) hs _

/-- **What is handed out for a region is what it binds,** in the order of its definition. The
priorities order the regions, and within one region the ranking is stable. -/
theorem filter_dispatch_bindings (hindex : index.Keyed Region.id) (hr : index.get? r.id = some r)
    (key : FlagKey) {s : Region} (hs : s ∈ index.lineage r.id) :
    ((index.bindings r).dispatch key).filter (fun b => b.region = s.id) = s.bindingsOf key := by
  rw [BindingGraph.dispatch, filter_rank, filter_history_bindings hindex hr key hs]
  intro a ha b hb has hbs
  have hmem : ∀ c ∈ (index.bindings r).history key, c.region = s.id → c.priority = s.priority := by
    intro c hc hcs
    obtain ⟨t, ht, hct⟩ := (mem_history_bindings hr).mp hc
    have hts : t = s :=
      eq_of_mem_lineage hindex ht hs ((Region.region_of_mem_bindingsOf hct).symm.trans hcs)
    exact hts ▸ (Region.mem_bindingsOf.mp hct).2.1
  have has : a.region = s.id := by simpa using has
  have hbs : b.region = s.id := by simpa using hbs
  rw [ResolvedBinding.outranks, if_pos ((hmem a ha has).trans (hmem b hb hbs).symm), has, hbs]
  simp

/-! ### The source of a flag -/

theorem nearest_bindings (hr : index.get? r.id = some r) (key : FlagKey) :
    (((index.bindings r).history key).reverse.head?).map ResolvedBinding.region =
      (((index.lineage r.id).filter fun s => s.binds key).getLast?).map Region.id := by
  rw [List.head?_reverse, history_bindings hr, List.getLast?_flatMap, List.getLast?_filter]
  induction (index.lineage r.id).reverse with
  | nil => rfl
  | cons s rest ih =>
    have hlast := s.map_region_getLast?_bindingsOf key
    rw [List.findSome?_cons, List.find?_cons]
    cases hs : (s.bindingsOf key).getLast? with
    | none =>
      rw [hs] at hlast
      have hbinds : s.binds key = false := by
        by_contra h
        simp [h] at hlast
      rw [hbinds]
      exact ih
    | some b =>
      rw [hs] at hlast
      have hbinds : s.binds key = true := by
        by_contra h
        simp [h] at hlast
      rw [hbinds, Option.map_some]
      rw [hbinds, if_pos rfl] at hlast
      exact hlast

theorem own_bindings (hindex : index.Keyed Region.id) (hr : index.get? r.id = some r)
    (key : FlagKey) :
    (((index.bindings r).history key).reverse.find? fun b => b.region = r.id).map
        ResolvedBinding.region =
      if r.binds key then some r.id else none := by
  rw [← r.map_region_getLast?_bindingsOf key,
    ← filter_history_bindings hindex hr key (mem_lineage_self hr), List.getLast?_filter]

/-- **The source of a flag is its supplier.** -/
theorem source_bindings (hindex : index.Keyed Region.id) (hr : index.get? r.id = some r)
    (key : FlagKey) :
    (index.bindings r).source key r.id = (index.supplier? r key).map Region.id := by
  rw [BindingGraph.source, supplier?]
  split
  · exact nearest_bindings hr key
  · rw [own_bindings hindex hr key]
    split <;> rfl

/-! ### A town and a house

The smallest lineage in which a flag comes from above. -/

/-- A town that forbids to build. -/
def town : Region :=
  .ofDefinition { id := ⟨"town"⟩, flags := [.ofValue .build (.boolean false)] } .empty

/-- A house in the town. -/
def house : Region := .ofDefinition { id := ⟨"house"⟩, parent := some ⟨"town"⟩ } .empty

/-- The index of the town and its house. -/
def townIndex : RegionIndex := SortedMap.insert (SortedMap.insert ∅ town.id town) house.id house

theorem keyed_townIndex : townIndex.Keyed Region.id :=
  ((SortedMap.keyed_empty _).insert rfl).insert rfl

theorem get?_townIndex_house : townIndex.get? house.id = some house :=
  SortedMap.get?_insert_self ..

theorem lineage_house : townIndex.lineage house.id = [town, house] := by
  have htown : (SortedMap.erase townIndex house.id).get? town.id = some town := by rfl
  rw [lineage_eq_append get?_townIndex_house, ancestors]
  show (SortedMap.follow Region.parent (SortedMap.erase townIndex house.id)
    (some town.id)).reverse ++ [house] = [town, house]
  rw [SortedMap.follow_of_get?_eq_some htown]
  show (town :: SortedMap.follow Region.parent _ none).reverse ++ [house] = [town, house]
  rw [SortedMap.follow_none]
  rfl

theorem supplier?_house : townIndex.supplier? house .build = some town := by
  rw [supplier?, lineage_house]
  rfl

end RegionIndex

end RegionPolicy
