import RegionPolicy.Policy.Graph
import RegionPolicy.Proofs.Walk
import Mathlib.Data.List.Nodup

/-!
# Lineages

The lineage of a region and the bindings that bear on it are two walks, one from the region's id
and one from its parent, with the region itself put aside. In an index in which every region stands
under its own id they are one walk: the bindings that bear on a region are those of the regions of
its lineage, in that order.

Nothing is asked of the parents. They may be missing, and they may go round in circles.

## Main results

* `RegionIndex.lineage_eq_append`, `RegionIndex.bindings_eq` — the two walks agree.
* `RegionIndex.nodup_lineage`, `RegionIndex.isChain_lineage` — no region comes up twice, and each is
  the parent of the next.
* `RegionIndex.lineage_insert` — a new region can only come in at the top of a lineage.
* `RegionIndex.bindings_mapValues` — changes that keep definitions, priorities and parents keep the
  bindings that bear on every region.
-/

namespace RegionPolicy

namespace RegionIndex

variable {index : RegionIndex}

/-! ### The two walks -/

/-- A region is the last of its lineage, behind the regions above it. -/
theorem lineage_eq_append {r : Region} (h : index.get? r.id = some r) :
    index.lineage r.id = (index.ancestors r).reverse ++ [r] := by
  rw [lineage, SortedMap.follow_of_get?_eq_some h, List.reverse_cons, ancestors]

theorem mem_lineage_self {r : Region} (h : index.get? r.id = some r) :
    r ∈ index.lineage r.id := by
  rw [lineage_eq_append h]
  exact List.mem_append_right _ List.mem_cons_self

/-- **The bindings that bear on a region are those of its lineage.** -/
theorem bindings_eq {r : Region} (h : index.get? r.id = some r) :
    index.bindings r = ⟨(index.lineage r.id).flatMap Region.ownBindings⟩ := by
  rw [bindings, lineage_eq_append h]

theorem get?_of_mem_lineage (hindex : index.Keyed Region.id) {id : RegionId} {r : Region}
    (hr : r ∈ index.lineage id) : index.get? r.id = some r :=
  SortedMap.get?_of_mem_follow hindex (List.mem_reverse.mp hr)

/-- No region comes up twice in a lineage. -/
theorem nodup_lineage (hindex : index.Keyed Region.id) (id : RegionId) :
    ((index.lineage id).map Region.id).Nodup := by
  rw [lineage, List.map_reverse, List.nodup_reverse]
  exact SortedMap.nodup_follow hindex (some id)

/-- Each region of a lineage is the parent of the next. -/
theorem isChain_lineage (hindex : index.Keyed Region.id) (id : RegionId) :
    (index.lineage id).IsChain fun above below => below.parent = some above.id := by
  rw [lineage, List.isChain_reverse]
  exact SortedMap.isChain_follow hindex (some id)

theorem eq_of_mem_lineage (hindex : index.Keyed Region.id) {id : RegionId} {r s : Region}
    (hr : r ∈ index.lineage id) (hs : s ∈ index.lineage id) (h : r.id = s.id) : r = s :=
  List.inj_on_of_nodup_map (nodup_lineage hindex id) hr hs h

/-! ### Lineages in changed indexes -/

/-- **A new region can only come in at the top of a lineage.** -/
theorem lineage_insert {id : RegionId} (h : index.get? id = none) (r : Region) (target : RegionId) :
    index.lineage target <:+ lineage (index.insert id r) target := by
  rw [lineage, lineage, List.reverse_suffix]
  exact SortedMap.follow_insert Region.parent h r (some target)

theorem lineage_mapValues (hindex : index.Keyed Region.id) {f : RegionId → Region → Region}
    (hparent : ∀ id r, (f id r).parent = r.parent) (target : RegionId) :
    lineage (index.mapValues f) target = (index.lineage target).map fun r => f r.id r := by
  rw [lineage, lineage, SortedMap.follow_mapValues hindex hparent, List.map_reverse]

/-- The bindings in the definition of a region depend on its definition and its priority only. -/
theorem ownBindings_congr {r s : Region} (hdefinition : r.definition = s.definition)
    (hpriority : r.priority = s.priority) : r.ownBindings = s.ownBindings := by
  simp only [Region.ownBindings, Region.id, hdefinition, hpriority]

/-- Changes that keep definitions, priorities and parents keep the bindings that bear on every
region. -/
theorem bindings_mapValues (hindex : index.Keyed Region.id) {f : RegionId → Region → Region}
    (hdefinition : ∀ id r, (f id r).definition = r.definition)
    (hpriority : ∀ id r, (f id r).priority = r.priority)
    (hparent : ∀ id r, (f id r).parent = r.parent) {r : Region} (h : index.get? r.id = some r) :
    bindings (index.mapValues f) (f r.id r) = index.bindings r := by
  have hid : (f r.id r).id = r.id := congrArg RegionDefinition.id (hdefinition r.id r)
  have hget : SortedMap.get? (index.mapValues f) (f r.id r).id = some (f r.id r) := by
    rw [hid, SortedMap.get?_mapValues, h, Option.map_some]
  rw [bindings_eq hget, bindings_eq h, hid, lineage_mapValues hindex hparent, List.flatMap_map]
  exact congrArg BindingGraph.mk <| List.flatMap_congr fun s _ =>
    ownBindings_congr (hdefinition s.id s) (hpriority s.id s)

/-! ### Bindings of lineages that grow -/

section Suffix

variable {l l' : List Region}

theorem ownBindings_suffix (h : l <:+ l') :
    l.flatMap Region.ownBindings <:+ l'.flatMap Region.ownBindings := by
  obtain ⟨above, rfl⟩ := h
  rw [List.flatMap_append]
  exact List.suffix_append ..

/-- What comes on top of a lineage adds bindings just if it has any. -/
theorem ownBindings_eq_iff (h : l <:+ l') (hl' : (l'.map Region.id).Nodup) :
    l'.flatMap Region.ownBindings = l.flatMap Region.ownBindings ↔
      ∀ s ∈ l', s ∉ l → s.definition.flags = [] := by
  obtain ⟨above, rfl⟩ := h
  have hdisjoint : ∀ s ∈ above, s ∉ l := by
    rw [List.map_append, List.nodup_append] at hl'
    exact fun s hs hsl =>
      hl'.2.2 _ (List.mem_map_of_mem hs) _ (List.mem_map_of_mem hsl) rfl
  rw [List.flatMap_append, List.append_left_eq_self, List.flatMap_eq_nil_iff]
  constructor
  · intro hempty s hs hsl
    have hown := hempty s ((List.mem_append.mp hs).resolve_right hsl)
    exact List.map_eq_nil_iff.mp hown
  · intro hempty s hs
    rw [Region.ownBindings, hempty s (List.mem_append_left _ hs) (hdisjoint s hs), List.map_nil]

end Suffix

end RegionIndex

/-- Of three binding graphs of which each continues the one before at the top, the last is not the
first just if one of the steps adds something. -/
theorem BindingGraph.ne_iff_of_suffix {g now later : BindingGraph}
    (hnow : g.bindings <:+ now.bindings) (hlater : now.bindings <:+ later.bindings) :
    later ≠ g ↔ now ≠ g ∨ later ≠ now := by
  constructor
  · intro hne
    by_contra hall
    rw [not_or, not_not, not_not] at hall
    exact hne (hall.2.trans hall.1)
  · rintro hne rfl
    have hsame : later.bindings = now.bindings := hnow.eq_of_length_le hlater.length_le
    have heq : later = now := congrArg BindingGraph.mk hsame
    exact hne.elim (fun h => h heq.symm) fun h => h heq

end RegionPolicy
