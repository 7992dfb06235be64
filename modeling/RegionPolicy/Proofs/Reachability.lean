import Mathlib.Logic.Relation
import RegionPolicy.Proofs.Walk

/-!
# Where walks lead

A walk passes the keys that links lead to, and no others. Both walks are defined by how they go
along, with the entries that they have passed put aside; what they pass is said here without that,
as the keys that can be reached.

Nothing is asked of the links. They may lead nowhere, and they may go round in circles.

## Main definitions

* `SortedMap.Leads` — an entry of a map has a link from one key to another.
* `SortedMap.Reaches` — links lead from one key to another, in any number of steps.

## Main results

* `SortedMap.mem_explore_iff` — exploring finds what can be reached.
* `SortedMap.exists_mem_follow_iff` — a chain passes the keys of the map that can be reached.
-/

namespace RegionPolicy

universe u v

namespace SortedMap

variable {κ : Type u} {α : Type v} [Ord κ]

/-- The entry of a key has a link to another key. -/
def Leads (link : α → κ → Prop) (m : SortedMap κ α) (j k : κ) : Prop :=
  ∃ a, m.get? j = some a ∧ link a k

/-- Links lead from a key to another, in any number of steps. -/
def Reaches (link : α → κ → Prop) (m : SortedMap κ α) : κ → κ → Prop :=
  Relation.ReflTransGen (Leads link m)

/-- A list that is closed under links has all that its keys reach. -/
theorem Reaches.mem_of_closed {link : α → κ → Prop} {m : SortedMap κ α} {l : List κ}
    (hclosed : ∀ j ∈ l, ∀ k, Leads link m j k → k ∈ l) {j k : κ} (hj : j ∈ l)
    (h : Reaches link m j k) : k ∈ l := by
  induction h with
  | refl => exact hj
  | tail _ hlink ih => exact hclosed _ ih _ hlink

variable [Std.TransOrd κ] [Std.LawfulEqOrd κ] [DecidableEq κ]

/-- Whoever reaches a key with fewer entries reaches it with all of them. -/
theorem Reaches.of_erase {link : α → κ → Prop} {m : SortedMap κ α} {i j k : κ}
    (h : Reaches link (m.erase i) j k) : Reaches link m j k := by
  refine Relation.ReflTransGen.mono (fun a b hlink => ?_) _ _ h
  obtain ⟨v, hv, hb⟩ := hlink
  exact ⟨v, get?_of_get?_erase hv, hb⟩

/-! ### Exploring -/

section Explore

variable {links : α → List κ}

/-- **What is found in the end.** The entries of the keys found are put aside, and whatever is
linked to from a key found is found or waiting. -/
theorem mem_exploreFrom_iff (all : SortedMap κ α) {m : SortedMap κ α} {found waiting : List κ}
    (hleft : ∀ k, m.get? k = if k ∈ found then none else all.get? k)
    (hclosed : ∀ j ∈ found, ∀ k, Leads (fun a k => k ∈ links a) all j k →
      k ∈ found ∨ k ∈ waiting) {target : κ} :
    target ∈ exploreFrom links m found waiting ↔
      ∃ k, (k ∈ found ∨ k ∈ waiting) ∧ Reaches (fun a k => k ∈ links a) all k target := by
  induction m, found, waiting using exploreFrom.induct links with
  | case1 m found =>
    rw [exploreFrom, List.mem_reverse]
    constructor
    · exact fun h => ⟨target, .inl h, .refl⟩
    · rintro ⟨k, hk | hk, hreach⟩
      · refine hreach.mem_of_closed (fun j hj k hlink => ?_) hk
        exact (hclosed j hj k hlink).resolve_right List.not_mem_nil
      · cases hk
  | case2 m found k rest hk ih =>
    have hwaiting : ∀ j, j ∈ found ∨ j ∈ k :: rest ↔ j ∈ found ∨ j ∈ rest := by
      intro j
      by_cases hj : j = k <;> simp [hj, hk]
    rw [exploreFrom, if_pos hk, ih hleft fun j hj i hlink => (hwaiting i).mp (hclosed j hj i hlink)]
    simp only [hwaiting]
  | case3 m found k rest hk hnone ih =>
    have hall : all.get? k = none := by
      rw [hleft, if_neg hk] at hnone
      exact hnone
    have hfound :
        exploreFrom links m found (k :: rest) = exploreFrom links m (k :: found) rest := by
      rw [exploreFrom, if_neg hk]
      split <;> simp_all
    rw [hfound, ih]
    · simp only [List.mem_cons, or_assoc, or_left_comm]
    · intro i
      rw [hleft]
      by_cases hi : i = k <;> simp [hi, hall]
    · intro j hj i hlink
      rcases List.mem_cons.mp hj with rfl | hj
      · obtain ⟨a, ha, -⟩ := hlink
        rw [hall] at ha
        cases ha
      · simpa [or_assoc, or_left_comm] using hclosed j hj i hlink
  | case4 m found k rest hk a ha ih =>
    have hall : all.get? k = some a := by
      rw [hleft, if_neg hk] at ha
      exact ha
    have hfound : exploreFrom links m found (k :: rest) =
        exploreFrom links (m.erase k) (k :: found) (rest ++ links a) := by
      rw [exploreFrom, if_neg hk]
      split <;> simp_all
    rw [hfound, ih]
    · -- what the new key links to is reached from the key itself
      constructor
      · rintro ⟨j, hj, hreach⟩
        simp only [List.mem_cons, List.mem_append] at hj
        rcases hj with (rfl | hj) | hj | hj
        · exact ⟨j, .inr List.mem_cons_self, hreach⟩
        · exact ⟨j, .inl hj, hreach⟩
        · exact ⟨j, .inr (List.mem_cons_of_mem k hj), hreach⟩
        · exact ⟨k, .inr List.mem_cons_self, .head ⟨a, hall, hj⟩ hreach⟩
      · rintro ⟨j, hj, hreach⟩
        refine ⟨j, ?_, hreach⟩
        simp only [List.mem_cons, List.mem_append] at hj ⊢
        tauto
    · intro i
      rw [get?_erase, hleft]
      by_cases hi : i = k <;> simp [hi]
    · intro j hj i hlink
      simp only [List.mem_cons, List.mem_append] at hj ⊢
      rcases hj with rfl | hj
      · obtain ⟨b, hb, hi⟩ := hlink
        rw [hall] at hb
        obtain rfl := Option.some.inj hb
        exact .inr (.inr hi)
      · have hi := hclosed j hj i hlink
        rw [List.mem_cons] at hi
        tauto

/-- **Exploring finds what can be reached.** -/
theorem mem_explore_iff {m : SortedMap κ α} {k target : κ} :
    target ∈ m.explore links k ↔ Reaches (fun a k => k ∈ links a) m k target := by
  rw [explore, mem_exploreFrom_iff m (by simp) (by simp)]
  simp

end Explore

/-! ### Chains -/

section Follow

variable {next : α → Option κ} {key : α → κ}

theorem reaches_of_mem_follow {m : SortedMap κ α} (hm : m.Keyed key) {start : Option κ} {a : α}
    (ha : a ∈ follow next m start) :
    ∃ j, start = some j ∧ Reaches (fun a k => next a = some k) m j (key a) := by
  induction m, start using follow_induction next with
  | nowhere m => simp at ha
  | missing m k hk => simp [follow_of_get?_eq_none hk] at ha
  | found m k b hk ih =>
    rw [follow_of_get?_eq_some hk] at ha
    refine ⟨k, rfl, ?_⟩
    rcases List.mem_cons.mp ha with rfl | ha
    · rw [hm k a hk]
      exact .refl
    · obtain ⟨j, hnext, hreach⟩ := ih (hm.erase k) ha
      exact .head ⟨b, hk, hnext⟩ hreach.of_erase

/-- A chain goes on as long as it meets entries. -/
theorem mem_follow_of_next {m : SortedMap κ α} {start : Option κ} {k : κ} {a b : α}
    (ha : a ∈ follow next m start) (hnext : next a = some k) (hk : m.get? k = some b) :
    b ∈ follow next m start := by
  induction m, start using follow_induction next with
  | nowhere m => simp at ha
  | missing m j hj => simp [follow_of_get?_eq_none hj] at ha
  | found m j c hj ih =>
    rw [follow_of_get?_eq_some hj] at ha ⊢
    by_cases hkj : k = j
    · rw [hkj, hj] at hk
      rw [Option.some.inj hk]
      exact List.mem_cons_self
    · have hk' : (m.erase j).get? k = some b := by rw [get?_erase_of_ne m hkj, hk]
      refine List.mem_cons_of_mem c ?_
      rcases List.mem_cons.mp ha with rfl | ha
      · rw [hnext, follow_of_get?_eq_some hk']
        exact List.mem_cons_self
      · exact ih ha hk'

/-- **A chain passes the keys of the map that can be reached.** -/
theorem exists_mem_follow_iff {m : SortedMap κ α} (hm : m.Keyed key) {j k : κ} :
    (∃ a ∈ follow next m (some j), key a = k) ↔
      m.contains k = true ∧ Reaches (fun a k => next a = some k) m j k := by
  constructor
  · rintro ⟨a, ha, rfl⟩
    obtain ⟨i, hi, hreach⟩ := reaches_of_mem_follow hm ha
    exact ⟨contains_of_get? (get?_of_mem_follow hm ha), Option.some.inj hi ▸ hreach⟩
  · rintro ⟨hk, hreach⟩
    obtain ⟨b, hb⟩ := Option.isSome_iff_exists.mp hk
    refine ⟨b, ?_, hm k b hb⟩
    clear hk
    induction hreach generalizing b with
    | refl =>
      rw [follow_of_get?_eq_some hb]
      exact List.mem_cons_self
    | tail _ hlink ih =>
      obtain ⟨a, ha, hnext⟩ := hlink
      exact mem_follow_of_next (ih a ha) hnext hb

end Follow

end SortedMap

end RegionPolicy
