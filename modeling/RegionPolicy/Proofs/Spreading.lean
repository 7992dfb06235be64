import RegionPolicy.Engine.State
import RegionPolicy.Proofs.Reachability

/-!
# How forgetting spreads

A region is forgotten together with all regions that its children lead to. Exploring goes through a
queue, to which it adds the children of a region as they stand, those included that have been passed
or are waiting already. What comes of it can be said without the queue: the regions one step below
come after the region itself, those two steps below after them, and so on, and each further step
goes through what was found so far, in order, and takes the children that are new.

Nothing is asked of the children. They may be missing, they may be shared, and they may go round in
circles. A step that finds no region of the index adds nothing, nor does any step after it; so after
as many steps as there are regions all is found.

## Main definitions

* `newcomers` — the keys of a list that are not known.
* `SortedMap.within` — the keys that a number of links lead to at most, the nearer first.
* `SortedMap.ReachesIn` — a number of links lead from one key to another.
* `RegionIndex.below` — the ids at most some steps below a region.

## Main results

* `SortedMap.explore_eq_within` — exploring goes step by step.
* `SortedMap.mem_within_iff` — a step finds what one more link leads to.
* `Engine.invalidate_eq_below` — what is forgotten with a region, and in which order it is made
  known.
-/

set_option linter.unusedSectionVars false

namespace RegionPolicy

universe u v

/-! ### Keys that are new -/

section Newcomers

variable {κ : Type u} [DecidableEq κ]

/-- The keys of a list that are not known, each where it comes up first. -/
def newcomers (known : List κ) : List κ → List κ
  | [] => []
  | k :: rest => if k ∈ known then newcomers known rest else k :: newcomers (k :: known) rest

theorem mem_newcomers {known l : List κ} {k : κ} : k ∈ newcomers known l ↔ k ∈ l ∧ k ∉ known := by
  induction l generalizing known with
  | nil => simp [newcomers]
  | cons j rest ih =>
    rw [newcomers]
    split
    · rename_i hj
      rw [ih, List.mem_cons]
      grind
    · rename_i hj
      rw [List.mem_cons, ih, List.mem_cons, List.mem_cons]
      grind

theorem nodup_newcomers (known l : List κ) : (newcomers known l).Nodup := by
  induction l generalizing known with
  | nil => simp [newcomers]
  | cons j rest ih =>
    rw [newcomers]
    split
    · exact ih known
    · refine List.nodup_cons.mpr ⟨fun hj => ?_, ih (j :: known)⟩
      exact (mem_newcomers.mp hj).2 List.mem_cons_self

/-- In which order keys are known makes no difference. -/
theorem newcomers_congr {known known' : List κ} (h : ∀ k, k ∈ known ↔ k ∈ known') (l : List κ) :
    newcomers known l = newcomers known' l := by
  induction l generalizing known known' with
  | nil => rfl
  | cons j rest ih =>
    have hcons : ∀ k, k ∈ j :: known ↔ k ∈ j :: known' := by simp [h]
    simp only [newcomers, h, ih h, ih hcons]

theorem newcomers_append_of_subset {known passed : List κ} (h : ∀ k ∈ passed, k ∈ known)
    (l : List κ) : newcomers known (passed ++ l) = newcomers known l := by
  induction passed with
  | nil => rfl
  | cons j rest ih =>
    rw [List.cons_append, newcomers, if_pos (h j List.mem_cons_self)]
    exact ih fun k hk => h k (List.mem_cons_of_mem j hk)

theorem newcomers_eq_nil_iff {known l : List κ} : newcomers known l = [] ↔ ∀ k ∈ l, k ∈ known := by
  rw [List.eq_nil_iff_forall_not_mem]
  simp only [mem_newcomers, not_and, not_not]

end Newcomers

namespace SortedMap

variable {κ : Type u} {α : Type v} [Ord κ] [Std.TransOrd κ] [Std.LawfulEqOrd κ] [DecidableEq κ]

/-! ### Step by step -/

section Steps

variable (links : α → List κ) (m : SortedMap κ α) (start : κ)

/-- The keys that the entry of a key links to, if there is one. -/
def linksOf (k : κ) : List κ :=
  match m.get? k with
  | some a => links a
  | none => []

/-- The keys that at most `n` links lead to, the nearer first. One link more takes the new ones
among the links of those found so far, as they come up. -/
def within : Nat → List κ
  | 0 => [start]
  | n + 1 => within n ++ newcomers (within n) ((within n).flatMap (linksOf links m))

/-- So many links lead from a key to another. -/
inductive ReachesIn : Nat → κ → Prop where
  | start : ReachesIn 0 start
  | link {n : Nat} {j k : κ} (hj : ReachesIn n j) (hlink : Leads (fun a k => k ∈ links a) m j k) :
    ReachesIn (n + 1) k

end Steps

variable {links : α → List κ} {m : SortedMap κ α} {start : κ}

theorem mem_linksOf {j k : κ} : k ∈ linksOf links m j ↔ Leads (fun a k => k ∈ links a) m j k := by
  rw [linksOf, Leads]
  cases m.get? j <;> simp

theorem linksOf_of_get?_eq_none {k : κ} (h : m.get? k = none) : linksOf links m k = [] := by
  rw [linksOf, h]

theorem mem_within_succ {n : Nat} {k : κ} :
    k ∈ within links m start (n + 1) ↔
      k ∈ within links m start n ∨ k ∈ (within links m start n).flatMap (linksOf links m) := by
  rw [within, List.mem_append, mem_newcomers]
  tauto

/-- **A step finds what one more link leads to.** -/
theorem mem_within_iff {n : Nat} {k : κ} :
    k ∈ within links m start n ↔ ∃ d ≤ n, ReachesIn links m start d k := by
  induction n generalizing k with
  | zero =>
    rw [within, List.mem_singleton]
    constructor
    · rintro rfl
      exact ⟨0, le_rfl, .start⟩
    · rintro ⟨d, hd, h⟩
      obtain rfl : d = 0 := Nat.le_zero.mp hd
      cases h
      rfl
  | succ n ih =>
    simp only [mem_within_succ, List.mem_flatMap, ih, mem_linksOf]
    constructor
    · rintro (⟨d, hd, h⟩ | ⟨j, ⟨d, hd, h⟩, hlink⟩)
      · exact ⟨d, Nat.le_succ_of_le hd, h⟩
      · exact ⟨d + 1, Nat.succ_le_succ hd, .link h hlink⟩
    · rintro ⟨d, hd, h⟩
      cases h with
      | start => exact .inl ⟨0, n.zero_le, .start⟩
      | link hj hlink => exact .inr ⟨_, ⟨_, Nat.le_of_succ_le_succ hd, hj⟩, hlink⟩

theorem nodup_within (links : α → List κ) (m : SortedMap κ α) (start : κ) (n : Nat) :
    (within links m start n).Nodup := by
  induction n with
  | zero => exact List.nodup_singleton start
  | succ n ih =>
    refine List.nodup_append.mpr ⟨ih, nodup_newcomers _ _, fun j hj k hk => ?_⟩
    rintro rfl
    exact (mem_newcomers.mp hk).2 hj

/-- What was found stays where it is. -/
theorem within_prefix {n n' : Nat} (h : n ≤ n') :
    within links m start n <+: within links m start n' := by
  induction h with
  | refl => exact List.prefix_refl _
  | step _ ih => exact ih.trans (List.prefix_append ..)

/-! ### The queue -/

section Queue

variable {found : List κ}

theorem exploreFrom_of_mem {k : κ} (hk : k ∈ found) (rest : List κ) :
    exploreFrom links m found (k :: rest) = exploreFrom links m found rest := by
  rw [exploreFrom, if_pos hk]

/-- A key that is new is found, and what it links to waits. The entries of the keys found are put
aside. -/
theorem exploreFrom_of_not_mem {k : κ} (hk : k ∉ found) (rest : List κ) :
    exploreFrom links (found.foldl erase m) found (k :: rest) =
      exploreFrom links ((k :: found).foldl erase m) (k :: found)
        (rest ++ linksOf links m k) := by
  have hget : (found.foldl erase m).get? k = m.get? k := by
    rw [get?_foldl_erase, if_neg hk]
  rw [exploreFrom, if_neg hk]
  split
  · rename_i hnone
    rw [hget] at hnone
    have hleft : found.foldl erase m = (k :: found).foldl erase m := by
      refine ext_get? fun j => ?_
      simp only [get?_foldl_erase, List.mem_cons]
      by_cases hj : j = k <;> simp [hj, hnone]
    rw [linksOf_of_get?_eq_none hnone, List.append_nil, ← hleft]
  · rename_i a ha
    rw [hget] at ha
    have hleft : (found.foldl erase m).erase k = (k :: found).foldl erase m := by
      refine ext_get? fun j => ?_
      simp only [get?_erase, get?_foldl_erase, List.mem_cons]
      by_cases hj : j = k <;> simp [hj]
    rw [linksOf, ha, hleft]

theorem exploreFrom_of_subset {waiting : List κ} (h : ∀ k ∈ waiting, k ∈ found) :
    exploreFrom links m found waiting = found.reverse := by
  induction waiting with
  | nil => rw [exploreFrom]
  | cons k rest ih =>
    rw [exploreFrom_of_mem (h k List.mem_cons_self)]
    exact ih fun j hj => h j (List.mem_cons_of_mem k hj)

/-- **One pass through the queue** finds the keys that are new, and what they link to waits, behind
what was waiting behind them. -/
theorem exploreFrom_append (ks later : List κ) :
    exploreFrom links (found.foldl erase m) found (ks ++ later) =
      exploreFrom links (((newcomers found ks).reverse ++ found).foldl erase m)
        ((newcomers found ks).reverse ++ found)
        (later ++ (newcomers found ks).flatMap (linksOf links m)) := by
  induction ks generalizing found later with
  | nil => simp [newcomers]
  | cons k rest ih =>
    rw [List.cons_append, newcomers]
    split
    · rename_i hk
      rw [exploreFrom_of_mem hk, ih]
    · rename_i hk
      rw [exploreFrom_of_not_mem hk, List.append_assoc, ih, List.reverse_cons, List.flatMap_cons,
        List.append_assoc, List.append_assoc, List.singleton_append]

/-- **The queue after any number of steps.** What waits are the links of those found, apart from
some that have been found as well. -/
theorem exists_waiting (links : α → List κ) (m : SortedMap κ α) (start : κ) (n : Nat) :
    ∃ passed waiting,
      (within links m start n).flatMap (linksOf links m) = passed ++ waiting ∧
      (∀ k ∈ passed, k ∈ within links m start n) ∧
      explore links m start = exploreFrom links ((within links m start n).reverse.foldl erase m)
        (within links m start n).reverse waiting := by
  induction n with
  | zero =>
    refine ⟨[], linksOf links m start, by simp [within], by simp, ?_⟩
    exact exploreFrom_of_not_mem List.not_mem_nil []
  | succ n ih =>
    obtain ⟨passed, waiting, hlinks, hpassed, hexplore⟩ := ih
    have hnew : newcomers (within links m start n).reverse waiting =
        newcomers (within links m start n)
          ((within links m start n).flatMap (linksOf links m)) := by
      rw [hlinks, newcomers_append_of_subset hpassed]
      exact newcomers_congr (fun k => List.mem_reverse) waiting
    refine ⟨_, (newcomers (within links m start n)
      ((within links m start n).flatMap (linksOf links m))).flatMap (linksOf links m), ?_,
      fun k hk => mem_within_succ.mpr (.inr hk), ?_⟩
    · rw [within, List.flatMap_append]
    · rw [hexplore, ← List.append_nil waiting, exploreFrom_append, hnew, ← List.reverse_append,
        List.nil_append, within]

end Queue

/-! ### The end -/

theorem size_foldl_erase_le (m : SortedMap κ α) (l : List κ) : (l.foldl erase m).size ≤ m.size := by
  induction l generalizing m with
  | nil => exact le_rfl
  | cons k rest ih => exact (ih (m.erase k)).trans (size_erase_le m k)

theorem size_foldl_erase_lt {l : List κ} {k : κ} (hk : k ∈ l) (hm : m.contains k = true) :
    (l.foldl erase m).size < m.size := by
  induction l generalizing m with
  | nil => cases hk
  | cons j rest ih =>
    by_cases hkj : k = j
    · subst hkj
      exact (size_foldl_erase_le (m.erase k) rest).trans_lt (size_erase_lt hm)
    · have hrest : (m.erase j).contains k = true := by
        rwa [contains, get?_erase_of_ne m hkj]
      exact (ih ((List.mem_cons.mp hk).resolve_left hkj) hrest).trans_le (size_erase_le m j)

theorem within_succ_eq_iff {n : Nat} :
    within links m start (n + 1) = within links m start n ↔
      ∀ k ∈ (within links m start n).flatMap (linksOf links m), k ∈ within links m start n := by
  rw [within, List.append_right_eq_self, newcomers_eq_nil_iff]

/-- If a step finds nothing, no later step does. -/
theorem within_eq_of_succ_eq {n n' : Nat}
    (h : within links m start (n + 1) = within links m start n) (hn : n ≤ n') :
    within links m start n' = within links m start n := by
  induction hn with
  | refl => rfl
  | step _ ih =>
    rw [← ih, within_succ_eq_iff, ih]
    exact within_succ_eq_iff.mp h

/-- **Each step passes one more entry, unless nothing is found any more.** A key that is new at a
step is linked to from the entry of a key that was new at the step before. -/
theorem size_or_within_eq (links : α → List κ) (m : SortedMap κ α) (start : κ) (n : Nat) :
    ((within links m start n).foldl erase m).size + n < m.size ∨
      within links m start (n + 1) = within links m start n := by
  induction n with
  | zero =>
    by_cases hm : m.contains start = true
    · exact .inl (size_foldl_erase_lt List.mem_cons_self hm)
    · right
      have hnone : m.get? start = none := by simpa [contains] using hm
      rw [within_succ_eq_iff]
      simp [within, linksOf_of_get?_eq_none hnone]
  | succ n ih =>
    by_cases hend : within links m start (n + 1 + 1) = within links m start (n + 1)
    · exact .inr hend
    left
    have hgoes : within links m start (n + 1) ≠ within links m start n := fun hsame =>
      hend (within_eq_of_succ_eq hsame (Nat.le_add_right n 2) ▸ hsame.symm)
    have hsize := ih.resolve_right hgoes
    obtain ⟨k, hk, hknew⟩ : ∃ k ∈ (within links m start (n + 1)).flatMap (linksOf links m),
        k ∉ within links m start (n + 1) := by
      by_contra hnone
      exact hend (within_succ_eq_iff.mpr (by simpa using hnone))
    obtain ⟨j, hj, hlink⟩ := List.mem_flatMap.mp hk
    have hjnew : j ∉ within links m start n := fun hjold =>
      hknew (mem_within_succ.mpr (.inr (List.mem_flatMap.mpr ⟨j, hjold, hlink⟩)))
    obtain ⟨a, ha, -⟩ := mem_linksOf.mp hlink
    have hleft : ((within links m start n).foldl erase m).contains j = true := by
      rw [contains, get?_foldl_erase, if_neg hjnew, ha]
      rfl
    have hmem : j ∈ newcomers (within links m start n)
        ((within links m start n).flatMap (linksOf links m)) := by
      rw [within, List.mem_append] at hj
      exact hj.resolve_left hjnew
    have hlt := size_foldl_erase_lt hmem hleft
    rw [within, List.foldl_append]
    omega

theorem within_size_succ (links : α → List κ) (m : SortedMap κ α) (start : κ) :
    within links m start (m.size + 1) = within links m start m.size :=
  (size_or_within_eq links m start m.size).resolve_left (by omega)

/-- What a number of steps find comes before all else. -/
theorem within_prefix_size (links : α → List κ) (m : SortedMap κ α) (start : κ) (n : Nat) :
    within links m start n <+: within links m start m.size := by
  rcases Nat.le_total n m.size with hn | hn
  · exact within_prefix hn
  · exact within_eq_of_succ_eq (within_size_succ links m start) hn ▸ List.prefix_refl _

/-- **Exploring goes step by step,** and is done after as many steps as there are entries. -/
theorem explore_eq_within (links : α → List κ) (m : SortedMap κ α) (start : κ) :
    explore links m start = within links m start m.size := by
  have hend := within_size_succ links m start
  obtain ⟨passed, waiting, hlinks, -, hexplore⟩ := exists_waiting links m start m.size
  rw [within_succ_eq_iff, hlinks] at hend
  rw [hexplore, exploreFrom_of_subset, List.reverse_reverse]
  exact fun k hk => List.mem_reverse.mpr (hend k (List.mem_append_right passed hk))

end SortedMap

/-! ### Forgetting -/

/-- The ids of a region and of the regions at most `n` steps below it, the nearer first. One step
more goes through those found so far and takes the children that are new, of each region in
ascending order. -/
def RegionIndex.below (index : RegionIndex) (id : RegionId) (n : Nat) : List RegionId :=
  SortedMap.within (fun r => r.children.toList) index id n

theorem RegionIndex.descendants_eq_below (index : RegionIndex) (id : RegionId) :
    index.descendants id = index.below id index.size :=
  SortedMap.explore_eq_within _ index id

-- The children go round, `d` is shared, and `x` is not in the index.
example :
    let region (id : String) (children : List String) : RegionId × Region :=
      (⟨id⟩, { Region.ofDefinition { id := ⟨id⟩ } .empty with
        children := .ofList (children.map RegionId.mk) })
    (RegionIndex.below (.ofList [region "a" ["c", "b"], region "b" ["d", "a"],
      region "c" ["x", "d"], region "d" ["a"]]) ⟨"a"⟩ 4).map RegionId.text =
      ["a", "b", "c", "d", "x"] := by
  decide +kernel

/-- **What is forgotten with a region.** The ids that children lead to from it, known or not, are
made known, each once, the region itself first, and step by step: what is at most `n` steps below
comes before all else, whatever `n`. What was kept for these ids is forgotten, what was kept for
others stays, and nothing else changes. -/
theorem Engine.invalidate_eq_below {δ σ : Type} (e : Engine δ σ) (id : RegionId) :
    let told := e.index.below id e.index.size
    (∀ target, target ∈ told ↔
        SortedMap.Reaches (fun r child => child ∈ r.children) e.index id target) ∧
      told.Nodup ∧ told.head? = some id ∧
      (∀ n, e.index.below id n <+: told ∧ ∀ target, target ∈ e.index.below id n ↔
        ∃ d ≤ n, SortedMap.ReachesIn (fun r => r.children.toList) e.index id d target) ∧
      (∀ target, (e.invalidate id).cache.get? target =
        if target ∈ told then none else e.cache.get? target) ∧
      e.invalidate id = { e with
        cache := (e.invalidate id).cache
        changes := e.changes.publishAll (told.map .region) } := by
  intro told
  have htold : e.index.descendants id = told := e.index.descendants_eq_below id
  have hfirst : [id] <+: told := SortedMap.within_prefix_size _ e.index id 0
  refine ⟨fun target => ?_, SortedMap.nodup_within .., ?_, fun n => ⟨?_, fun target => ?_⟩,
    fun target => ?_, ?_⟩
  · rw [← htold, RegionIndex.descendants, SortedMap.mem_explore_iff]
    rfl
  · obtain ⟨rest, hrest⟩ := hfirst
    rw [← hrest]
    rfl
  · exact SortedMap.within_prefix_size ..
  · exact SortedMap.mem_within_iff
  · rw [invalidate, htold]
    exact SortedMap.get?_foldl_erase ..
  · rw [← htold]
    rfl

end RegionPolicy
