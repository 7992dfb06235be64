/-!
# Sets kept in ascending order

A `SortedSet` lists its elements in strictly ascending order, and the order is part of the type:
two sets with the same elements are equal (`SortedSet.ext_mem`), and listing a set is
deterministic.

## Main definitions

* `SortedSet` — strictly ascending elements.
* `SortedSet.insert`, `SortedSet.ofList`, `SortedSet.union`, `SortedSet.diff`.

## Main results

* `SortedSet.mem_insert`, `SortedSet.mem_ofList`, `SortedSet.mem_union`, `SortedSet.mem_diff` —
  the elements after each operation.
-/

set_option linter.unusedSectionVars false

namespace RegionPolicy

universe u

/-- A set given by its elements in strictly ascending order. -/
structure SortedSet (α : Type u) [Ord α] where
  /-- The elements in ascending order. -/
  toList : List α
  /-- Every element is below all elements after it. -/
  ascending : toList.Pairwise fun a b => compare a b = .lt

namespace SortedSet

variable {α : Type u} [Ord α]

/-! ### Queries -/

/-- Whether the element is in the set. -/
def contains (s : SortedSet α) (a : α) : Bool :=
  s.toList.any fun b => compare a b == .eq

/-- The number of elements. -/
def size (s : SortedSet α) : Nat :=
  s.toList.length

/-- Whether there is no element. -/
def isEmpty (s : SortedSet α) : Bool :=
  s.toList.isEmpty

instance : Membership α (SortedSet α) := ⟨fun s a => a ∈ s.toList⟩

theorem mem_toList {s : SortedSet α} {a : α} : a ∈ s.toList ↔ a ∈ s := Iff.rfl

/-! ### Construction -/

/-- The set without elements. -/
def empty : SortedSet α := ⟨[], .nil⟩

instance : EmptyCollection (SortedSet α) := ⟨empty⟩

instance : Inhabited (SortedSet α) := ⟨empty⟩

@[simp] theorem not_mem_empty (a : α) : ¬ a ∈ (∅ : SortedSet α) := List.not_mem_nil

/-- Puts an element in its place unless it is there already. -/
def insertElement (a : α) : List α → List α
  | [] => [a]
  | b :: rest =>
    match compare a b with
    | .lt => a :: b :: rest
    | .eq => b :: rest
    | .gt => b :: insertElement a rest

section Lawful

variable [Std.TransOrd α] [Std.LawfulEqOrd α]

theorem mem_insertElement {a b : α} {l : List α} :
    b ∈ insertElement a l ↔ b = a ∨ b ∈ l := by
  induction l with
  | nil => simp [insertElement]
  | cons c rest ih =>
    rw [insertElement]
    split
    · simp
    · rename_i heq
      rw [Std.LawfulEqOrd.eq_of_compare heq]
      simp
    · simp only [List.mem_cons, ih]
      grind

theorem ascending_insertElement (a : α) {l : List α}
    (h : l.Pairwise fun a b => compare a b = .lt) :
    (insertElement a l).Pairwise fun a b => compare a b = .lt := by
  induction l with
  | nil => simp [insertElement]
  | cons c rest ih =>
    obtain ⟨hhead, htail⟩ := List.pairwise_cons.mp h
    rw [insertElement]
    split
    · rename_i hlt
      refine List.pairwise_cons.mpr ⟨fun b hb => ?_, h⟩
      rcases List.mem_cons.mp hb with rfl | hb
      · exact hlt
      · exact Std.TransCmp.lt_trans hlt (hhead b hb)
    · exact h
    · rename_i hgt
      refine List.pairwise_cons.mpr ⟨fun b hb => ?_, ih htail⟩
      rcases mem_insertElement.mp hb with rfl | hb
      · exact Std.OrientedCmp.lt_of_gt hgt
      · exact hhead b hb

/-- The set with one more element. -/
def insert (s : SortedSet α) (a : α) : SortedSet α :=
  ⟨insertElement a s.toList, ascending_insertElement a s.ascending⟩

/-- The set of the elements of a list. -/
def ofList (l : List α) : SortedSet α :=
  l.foldl insert ∅

/-- The elements of either set. -/
def union (s t : SortedSet α) : SortedSet α :=
  t.toList.foldl insert s

/-- The elements of the first set that are not in the second. -/
def diff (s t : SortedSet α) : SortedSet α :=
  ⟨s.toList.filter fun a => !t.contains a, s.ascending.filter _⟩

/-! ### Elements after an operation -/

@[simp] theorem contains_iff {s : SortedSet α} {a : α} : s.contains a = true ↔ a ∈ s := by
  rw [contains, List.any_eq_true]
  constructor
  · rintro ⟨b, hb, heq⟩
    have hab : a = b := by simpa using heq
    exact hab ▸ hb
  · exact fun h => ⟨a, h, by simp⟩

instance (a : α) (s : SortedSet α) : Decidable (a ∈ s) :=
  decidable_of_iff _ contains_iff

@[simp] theorem mem_insert {s : SortedSet α} {a b : α} : b ∈ s.insert a ↔ b = a ∨ b ∈ s :=
  mem_insertElement

theorem mem_foldl_insert {l : List α} {s : SortedSet α} {a : α} :
    a ∈ l.foldl insert s ↔ a ∈ s ∨ a ∈ l := by
  induction l generalizing s with
  | nil => simp
  | cons b rest ih =>
    rw [List.foldl_cons, ih, mem_insert, List.mem_cons]
    grind

@[simp] theorem mem_ofList {l : List α} {a : α} : a ∈ ofList l ↔ a ∈ l := by
  simp [ofList, mem_foldl_insert]

@[simp] theorem mem_union {s t : SortedSet α} {a : α} : a ∈ s.union t ↔ a ∈ s ∨ a ∈ t := by
  rw [union, mem_foldl_insert, mem_toList]

@[simp] theorem mem_diff {s t : SortedSet α} {a : α} : a ∈ s.diff t ↔ a ∈ s ∧ a ∉ t := by
  rw [diff, ← mem_toList, List.mem_filter, mem_toList, Bool.not_eq_true', ← Bool.not_eq_true,
    contains_iff]

/-- Two sets with the same elements are equal. -/
theorem ext_mem {s t : SortedSet α} (h : ∀ a, a ∈ s ↔ a ∈ t) : s = t := by
  obtain ⟨l₁, h₁⟩ := s
  obtain ⟨l₂, h₂⟩ := t
  have hmem : ∀ a, a ∈ l₁ ↔ a ∈ l₂ := h
  clear h
  congr
  induction l₁ generalizing l₂ with
  | nil =>
    cases l₂ with
    | nil => rfl
    | cons b rest => exact absurd ((hmem b).mpr List.mem_cons_self) List.not_mem_nil
  | cons a rest ih =>
    cases l₂ with
    | nil => exact absurd ((hmem a).mp List.mem_cons_self) List.not_mem_nil
    | cons b rest' =>
      obtain ⟨hhead, htail⟩ := List.pairwise_cons.mp h₁
      obtain ⟨hhead', htail'⟩ := List.pairwise_cons.mp h₂
      have hab : a = b := by
        rcases List.mem_cons.mp ((hmem a).mp List.mem_cons_self) with heq | hin
        · exact heq
        · rcases List.mem_cons.mp ((hmem b).mpr List.mem_cons_self) with heq | hin'
          · exact heq.symm
          · have := Std.TransCmp.lt_trans (hhead' a hin) (hhead b hin')
            simp at this
      subst hab
      congr 1
      refine ih htail _ htail' fun c => ?_
      have := hmem c
      simp only [List.mem_cons] at this
      constructor
      · intro hc
        rcases this.mp (.inr hc) with rfl | hc'
        · have := hhead c hc
          simp at this
        · exact hc'
      · intro hc
        rcases this.mpr (.inr hc) with rfl | hc'
        · have := hhead' c hc
          simp at this
        · exact hc'

end Lawful

end SortedSet

end RegionPolicy
