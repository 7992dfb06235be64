import Mathlib.Data.List.Nodup
import RegionPolicy.Policy.Graph
import RegionPolicy.Proofs.Walk

/-!
# Which region comes first

Regions that overlap come in one order: by higher priority, and where priorities are equal by lesser
id. So do the bindings that are handed out for a flag. No two regions of an index have the same id,
so the order leaves no two of them undecided, and there is one way only to list some regions by it.
What is listed at a point therefore does not depend on how the index was gone through.

## Main definitions

* `precedes` — the order, on priorities and ids.
* `Region.Before` — a region comes before another.
* `RegionIndex.Lists` — a list of the regions that are wanted, each once, in some order.

## Main results

* `precedes_total`, `precedes_trans`, `Region.before_of_outranks` — the order leaves no two regions
  with different ids undecided.
* `RegionIndex.Lists.unique` — there is one such list at most.
* `RegionIndex.lists_rank`, `RegionIndex.lists_rank_id` — ranking the regions gives it, in whatever
  order they come up.
* `RegionIndex.regionsAt_unique` — the regions at a point, the one that counts there, and the list
  of all regions.
-/

namespace RegionPolicy

/-! ### Comparing -/

section Compare

variable {α : Type} [Ord α]

theorem isLE_or_isLE [Std.OrientedOrd α] (a b : α) :
    (compare a b).isLE ∨ (compare b a).isLE := by
  by_cases h : (compare a b).isLE
  · exact .inl h
  · have hlt : compare b a = .lt := Std.OrientedCmp.lt_of_not_isLE h
    exact .inr (hlt ▸ rfl)

theorem compare_lt_of_ne [Std.LawfulEqOrd α] {a b : α} (h : (compare a b).isLE) (hne : a ≠ b) :
    compare a b = .lt :=
  (Ordering.isLE_iff_eq_lt_or_eq_eq.mp h).resolve_right fun heq =>
    hne (Std.LawfulEqOrd.eq_of_compare heq)

/-- What is ranked by keys that differ comes out in strictly ascending order. -/
theorem pairwise_rank_compare [Std.TransOrd α] [Std.LawfulEqOrd α] {β : Type} (key : β → α)
    {l : List β} (h : (l.map key).Nodup) :
    (rank (fun a b => (compare (key a) (key b)).isLE) l).Pairwise fun a b =>
      compare (key a) (key b) = .lt := by
  have hranked : (rank (fun a b => (compare (key a) (key b)).isLE) l).Pairwise fun a b =>
      (compare (key a) (key b)).isLE :=
    pairwise_rank (fun a b => by simpa using isLE_or_isLE (key a) (key b))
      (fun _ _ _ => Std.TransCmp.isLE_trans) l
  have hnodup := ((rank_perm (fun a b => (compare (key a) (key b)).isLE) l).map key).nodup_iff.mpr h
  exact (hranked.and (List.pairwise_map.mp hnodup)).imp fun h => compare_lt_of_ne h.1 h.2

end Compare

/-! ### The order -/

/-- Whether a priority and an id may come before others: by higher priority, then by lesser id. -/
def precedes (a b : Int32 × RegionId) : Bool :=
  if a.1 = b.1 then (compare a.2 b.2).isLE else b.1 < a.1

theorem precedes_iff {a b : Int32 × RegionId} :
    precedes a b = true ↔ b.1 < a.1 ∨ a.1 = b.1 ∧ (compare a.2 b.2).isLE := by
  rw [precedes]
  split
  · rename_i h
    simp [h]
  · rename_i h
    simp [h]

theorem precedes_total (a b : Int32 × RegionId) : precedes a b || precedes b a := by
  have hid := isLE_or_isLE a.2 b.2
  rw [Bool.or_eq_true, precedes_iff, precedes_iff]
  grind

theorem precedes_trans (a b c : Int32 × RegionId) (hab : precedes a b) (hbc : precedes b c) :
    precedes a c := by
  have hid : (compare a.2 b.2).isLE → (compare b.2 c.2).isLE → (compare a.2 c.2).isLE :=
    Std.TransCmp.isLE_trans
  rw [precedes_iff] at *
  grind

/-- What is ranked by priorities and ids comes out in order. -/
theorem pairwise_rank_precedes {α : Type} (rankOf : α → Int32 × RegionId) (l : List α) :
    (rank (fun a b => precedes (rankOf a) (rankOf b)) l).Pairwise fun a b =>
      precedes (rankOf a) (rankOf b) :=
  pairwise_rank (fun a b => precedes_total (rankOf a) (rankOf b))
    (fun a b c => precedes_trans (rankOf a) (rankOf b) (rankOf c)) l

/-! ### Regions in order -/

theorem Region.outranks_eq :
    Region.outranks = fun a b => precedes (a.priority, a.id) (b.priority, b.id) := rfl

/-- A region comes before another: it has a higher priority, or the same and a lesser id. -/
def Region.Before (a b : Region) : Prop :=
  b.priority < a.priority ∨ a.priority = b.priority ∧ compare a.id b.id = .lt

namespace Region

variable {a b : Region}

theorem Before.asymm (h : a.Before b) : ¬ b.Before a := by
  have hid : compare a.id b.id = .lt → compare b.id a.id ≠ .lt := Std.OrientedCmp.not_lt_of_lt
  rw [Before] at *
  grind

/-- Of two regions with different ids the one that may come first does. -/
theorem before_of_outranks (h : a.outranks b) (hne : a.id ≠ b.id) : a.Before b := by
  rw [outranks_eq] at h
  obtain h | ⟨hpriority, hid⟩ := precedes_iff.mp h
  · exact .inl h
  · exact .inr ⟨hpriority, compare_lt_of_ne hid hne⟩

end Region

namespace RegionIndex

variable {index : RegionIndex}

/-! ### Lists of regions -/

/-- A list of the regions of an index that are wanted, each once, in some order. -/
structure Lists (index : RegionIndex) (wanted : Region → Bool) (before : Region → Region → Prop)
    (l : List Region) : Prop where
  /-- The regions that are wanted are listed, and no others. -/
  mem_iff : ∀ r, r ∈ l ↔ index.get? r.id = some r ∧ wanted r = true
  /-- No region is listed twice. -/
  nodup : (l.map Region.id).Nodup
  /-- Each comes before all that are listed after it. -/
  ordered : l.Pairwise before

/-- **There is one such list at most,** if no two regions come before each other. -/
theorem Lists.unique {wanted : Region → Bool} {before : Region → Region → Prop}
    (hasymm : ∀ a b, before a b → ¬ before b a) {l l' : List Region}
    (h : index.Lists wanted before l) (h' : index.Lists wanted before l') : l = l' := by
  have hperm : l.Perm l' :=
    (List.perm_ext_iff_of_nodup h.nodup.of_map h'.nodup.of_map).mpr fun r => by
      rw [h.mem_iff, h'.mem_iff]
  exact hperm.eq_of_pairwise (fun a b _ _ hab hba => absurd hba (hasymm a b hab)) h.ordered
    h'.ordered

/-- The first of a list comes before all others of it, and no other region does. -/
theorem Lists.head?_eq_some_iff {wanted : Region → Bool} {before : Region → Region → Prop}
    (hasymm : ∀ a b, before a b → ¬ before b a) {l : List Region}
    (h : index.Lists wanted before l) {r : Region} :
    l.head? = some r ↔ r ∈ l ∧ ∀ s ∈ l, s = r ∨ before r s := by
  cases l with
  | nil => simp
  | cons first rest =>
    have hfirst := (List.pairwise_cons.mp h.ordered).1
    rw [List.head?_cons, Option.some_inj]
    constructor
    · rintro rfl
      exact ⟨List.mem_cons_self, fun s hs => (List.mem_cons.mp hs).imp_right (hfirst s)⟩
    · rintro ⟨hr, hbefore⟩
      obtain heq | hlater := List.mem_cons.mp hr
      · exact heq.symm
      · exact (hbefore first List.mem_cons_self).resolve_right (hasymm _ _ (hfirst r hlater))

theorem lists_of_perm (hindex : index.Keyed Region.id) {wanted : Region → Bool}
    {before : Region → Region → Prop} {l : List Region}
    (hperm : l.Perm (index.values.filter wanted))
    (hordered : (l.map Region.id).Nodup → l.Pairwise before) : index.Lists wanted before l := by
  have hvalues : (index.values.map Region.id).Nodup :=
    hindex.map_values ▸ SortedMap.nodup_keys index
  have hnodup : (l.map Region.id).Nodup :=
    (hperm.map Region.id).nodup_iff.mpr ((List.filter_sublist.map Region.id).nodup hvalues)
  refine ⟨fun r => ?_, hnodup, hordered hnodup⟩
  rw [hperm.mem_iff, List.mem_filter, hindex.mem_values_iff]

/-- **Ranking the regions that are wanted lists them,** in whatever order the regions come up. -/
theorem lists_rank (hindex : index.Keyed Region.id) (wanted : Region → Bool)
    {regions : List Region} (hregions : regions.Perm index.values) :
    index.Lists wanted Region.Before (rank Region.outranks (regions.filter wanted)) := by
  have hperm := (rank_perm Region.outranks (regions.filter wanted)).trans (hregions.filter wanted)
  refine lists_of_perm hindex hperm fun hnodup => ?_
  have hranked := pairwise_rank_precedes (fun r : Region => (r.priority, r.id))
    (regions.filter wanted)
  exact (hranked.and (List.pairwise_map.mp hnodup)).imp fun h => Region.before_of_outranks h.1 h.2

/-- So does ranking all of them by id. -/
theorem lists_rank_id (hindex : index.Keyed Region.id) {regions : List Region}
    (hregions : regions.Perm index.values) :
    index.Lists (fun _ => true) (fun a b => compare a.id b.id = .lt)
      (rank (fun a b => (compare a.id b.id).isLE) regions) := by
  have hperm := rank_perm (fun a b : Region => (compare a.id b.id).isLE) regions
  refine lists_of_perm hindex ?_ fun hnodup => ?_
  · rw [List.filter_true]
    exact hperm.trans hregions
  · exact pairwise_rank_compare Region.id ((hperm.map Region.id).nodup_iff.mp hnodup)

/-! ### The regions at a point -/

theorem lists_regionsAt (hindex : index.Keyed Region.id) (p : Position) :
    index.Lists (fun r => r.contains p) Region.Before (index.regionsAt p) :=
  lists_rank hindex _ (.refl _)

/-- **The regions at a point** are those that contain it, each once, by descending priority and then
by ascending id. There is no other such list, and ranking gives it in whatever order the regions of
the index come up. The region that counts is the one that comes before all others that contain the
point; there is none just if no region contains it. All regions are listed by ascending id, each
once, and again there is no other such list, in whatever order they come up. -/
theorem regionsAt_unique (hindex : index.Keyed Region.id) (p : Position) :
    (∀ l, l = index.regionsAt p ↔ index.Lists (fun r => r.contains p) Region.Before l) ∧
      (∀ regions : List Region, regions.Perm index.values →
        rank Region.outranks (regions.filter fun r => r.contains p) = index.regionsAt p) ∧
      (∀ r, index.dominantAt p = some r ↔
        (index.get? r.id = some r ∧ r.contains p = true) ∧
          ∀ s, index.get? s.id = some s → s.contains p = true → s = r ∨ r.Before s) ∧
      (index.dominantAt p = none ↔ ∀ r, index.get? r.id = some r → r.contains p = false) ∧
      (∀ l, l = index.all ↔
        index.Lists (fun _ => true) (fun a b => compare a.id b.id = .lt) l) ∧
      ∀ regions : List Region, regions.Perm index.values →
        rank (fun a b => (compare a.id b.id).isLE) regions = index.all := by
  have hlists := lists_regionsAt hindex p
  have hasymm : ∀ a b : Region, a.Before b → ¬ b.Before a := fun _ _ => Region.Before.asymm
  have hid : ∀ a b : Region, compare a.id b.id = .lt → ¬ compare b.id a.id = .lt :=
    fun _ _ => Std.OrientedCmp.not_lt_of_lt
  have hall : index.Lists (fun _ => true) (fun a b => compare a.id b.id = .lt) index.all :=
    lists_rank_id hindex (.refl _)
  refine ⟨fun l => ⟨?_, fun h => h.unique hasymm hlists⟩, fun regions hregions => ?_,
    fun r => ?_, ?_, fun l => ⟨?_, fun h => h.unique hid hall⟩, fun regions hregions => ?_⟩
  · rintro rfl
    exact hlists
  · exact (lists_rank hindex _ hregions).unique hasymm hlists
  · rw [dominantAt, hlists.head?_eq_some_iff hasymm, hlists.mem_iff]
    simp only [hlists.mem_iff, and_imp]
  · rw [dominantAt, List.head?_eq_none_iff, List.eq_nil_iff_forall_not_mem]
    simp only [hlists.mem_iff, not_and, Bool.not_eq_true]
  · rintro rfl
    exact hall
  · exact (lists_rank_id hindex hregions).unique hid hall

/-! ### A fair

A fair with two stalls that overlap and have the same priority. -/

/-- A region of the fair: a square of some length that begins at the corner of the fair. -/
def stall (id : String) (priority : Int32) (length : Float) : Region :=
  .ofDefinition { id := ⟨id⟩, priority }
    (.cuboid ⟨⟨"world", 0, 0, 0⟩, ⟨"world", length, 9, length⟩⟩)

/-- The index of the fair. -/
def fairIndex : RegionIndex :=
  .ofList ([stall "baker" 5 20, stall "fair" 0 90, stall "anvil" 5 20, stall "well" 9 3].map
    fun r => (r.id, r))

theorem keyed_fairIndex : fairIndex.Keyed Region.id :=
  ((((SortedMap.keyed_empty _).insert rfl).insert rfl).insert rfl).insert rfl

/-- Behind the well, the anvil comes before the baker, and both before the fair. -/
theorem regionsAt_unique_fair :
    fairIndex.Keyed Region.id ∧
      (fairIndex.regionsAt ⟨"world", 7, 1, 7⟩).map Region.id =
        [⟨"anvil"⟩, ⟨"baker"⟩, ⟨"fair"⟩] ∧
      fairIndex.Lists (fun r => r.contains ⟨"world", 7, 1, 7⟩) Region.Before
        (fairIndex.regionsAt ⟨"world", 7, 1, 7⟩) ∧
      fairIndex.dominantAt ⟨"world", 99, 1, 7⟩ = none := by
  have hunique := regionsAt_unique keyed_fairIndex
  have hnone : fairIndex.values.all fun r => !r.contains ⟨"world", 99, 1, 7⟩ := by
    decide +kernel
  refine ⟨keyed_fairIndex, by decide +kernel, ((hunique _).1 _).mp rfl,
    (hunique _).2.2.2.1.mpr fun r hr => ?_⟩
  simpa using List.all_eq_true.mp hnone r (keyed_fairIndex.mem_values_iff.mpr hr)

end RegionIndex

end RegionPolicy
