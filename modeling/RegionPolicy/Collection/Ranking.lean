/-!
# Stable ranking

`rank le l` arranges `l` so that an element comes before another whenever `le` puts it strictly
first, and elements that `le` does not tell apart keep the order they had in `l`. It inserts the
elements one by one from the right, each before the first one it may precede.

## Main results

* `rank_perm` — nothing is lost and nothing is added.
* `pairwise_rank` — under a total, transitive order the result is ordered.
-/

namespace RegionPolicy

universe u

variable {α : Type u}

/-- Puts `a` before the first element that it may precede. -/
def rankInsert (le : α → α → Bool) (a : α) : List α → List α
  | [] => [a]
  | b :: rest => if le a b then a :: b :: rest else b :: rankInsert le a rest

/-- The elements of `l` in the order `le`, ties in the order of `l`. -/
def rank (le : α → α → Bool) : List α → List α
  | [] => []
  | a :: rest => rankInsert le a (rank le rest)

theorem rankInsert_perm (le : α → α → Bool) (a : α) (l : List α) :
    (rankInsert le a l).Perm (a :: l) := by
  induction l with
  | nil => exact .refl _
  | cons b rest ih =>
    rw [rankInsert]
    split
    · exact .refl _
    · exact (List.Perm.cons b ih).trans (List.Perm.swap a b rest)

/-- Ranking permutes. -/
theorem rank_perm (le : α → α → Bool) (l : List α) : (rank le l).Perm l := by
  induction l with
  | nil => exact .refl _
  | cons a rest ih => exact (rankInsert_perm le a _).trans (List.Perm.cons a ih)

@[simp] theorem mem_rank {le : α → α → Bool} {a : α} {l : List α} : a ∈ rank le l ↔ a ∈ l :=
  (rank_perm le l).mem_iff

theorem pairwise_rankInsert {le : α → α → Bool} (htotal : ∀ a b, le a b || le b a)
    (htrans : ∀ a b c, le a b → le b c → le a c) (a : α) {l : List α}
    (h : l.Pairwise fun a b => le a b) : (rankInsert le a l).Pairwise fun a b => le a b := by
  induction l with
  | nil => simp [rankInsert]
  | cons b rest ih =>
    obtain ⟨hhead, htail⟩ := List.pairwise_cons.mp h
    rw [rankInsert]
    split
    · rename_i hab
      refine List.pairwise_cons.mpr ⟨fun c hc => ?_, h⟩
      rcases List.mem_cons.mp hc with rfl | hc
      · exact hab
      · exact htrans a b c hab (hhead c hc)
    · rename_i hab
      have hba : le b a = true := by
        have := htotal a b
        simp_all
      refine List.pairwise_cons.mpr ⟨fun c hc => ?_, ih htail⟩
      rcases List.mem_cons.mp ((rankInsert_perm le a rest).mem_iff.mp hc) with rfl | hc
      · exact hba
      · exact hhead c hc

/-- A ranked list is ordered. -/
theorem pairwise_rank {le : α → α → Bool} (htotal : ∀ a b, le a b || le b a)
    (htrans : ∀ a b c, le a b → le b c → le a c) (l : List α) :
    (rank le l).Pairwise fun a b => le a b := by
  induction l with
  | nil => exact .nil
  | cons a rest ih => exact pairwise_rankInsert htotal htrans a ih

end RegionPolicy
