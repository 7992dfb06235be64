/-!
# Maps kept in key order

A `SortedMap` is an association list whose keys ascend strictly, and the order is part of the
type. Two things follow. Listing a map is deterministic, whatever the order in which its entries
arrived; and a map has one representation only, so two maps that answer every look-up alike are
equal (`SortedMap.ext_get?`).

## Main definitions

* `SortedMap` — strictly ascending keys with their values.
* `SortedMap.get?`, `SortedMap.insert`, `SortedMap.erase`, `SortedMap.mapValues`.

## Main results

* `SortedMap.get?_insert_self`, `SortedMap.get?_insert_of_ne` and their counterparts for `erase`
  and `mapValues`: each operation is pinned down by what a look-up gives afterwards.
* `SortedMap.size_erase_lt` — erasing a present key makes the map smaller, the measure of every
  walk that uses up the entries it visits.
-/

set_option linter.unusedSectionVars false

namespace RegionPolicy

universe u v w

/-- An association list whose keys ascend strictly. -/
structure SortedMap (κ : Type u) (α : Type v) [Ord κ] where
  /-- The entries in ascending key order. -/
  entries : List (κ × α)
  /-- Every key is below all keys after it. -/
  ascending : entries.Pairwise fun a b => compare a.1 b.1 = .lt

namespace SortedMap

variable {κ : Type u} {α : Type v} {β : Type w} [Ord κ]

/-! ### Queries -/

/-- The value that a list of entries holds for `k`. -/
def lookup (k : κ) : List (κ × α) → Option α
  | [] => none
  | (k', v) :: rest => if compare k k' = .eq then some v else lookup k rest

/-- The value stored for `k`. -/
def get? (m : SortedMap κ α) (k : κ) : Option α :=
  lookup k m.entries

/-- Whether a value is stored for `k`. -/
def contains (m : SortedMap κ α) (k : κ) : Bool :=
  (m.get? k).isSome

/-- The keys in ascending order. -/
def keys (m : SortedMap κ α) : List κ :=
  m.entries.map Prod.fst

/-- The values in ascending key order. -/
def values (m : SortedMap κ α) : List α :=
  m.entries.map Prod.snd

/-- The number of entries. -/
def size (m : SortedMap κ α) : Nat :=
  m.entries.length

/-- Whether there is no entry. -/
def isEmpty (m : SortedMap κ α) : Bool :=
  m.entries.isEmpty

/-! ### Construction -/

/-- The map without entries. -/
def empty : SortedMap κ α := ⟨[], .nil⟩

instance : EmptyCollection (SortedMap κ α) := ⟨empty⟩

instance : Inhabited (SortedMap κ α) := ⟨empty⟩

/-- Puts an entry in its place, over an entry with the same key. -/
def insertEntry (k : κ) (v : α) : List (κ × α) → List (κ × α)
  | [] => [(k, v)]
  | (k', v') :: rest =>
    match compare k k' with
    | .lt => (k, v) :: (k', v') :: rest
    | .eq => (k, v) :: rest
    | .gt => (k', v') :: insertEntry k v rest

theorem mem_insertEntry {k : κ} {v : α} {e : κ × α} {l : List (κ × α)} :
    e ∈ insertEntry k v l → e = (k, v) ∨ e ∈ l := by
  induction l with
  | nil => simp [insertEntry]
  | cons head tail ih =>
    obtain ⟨k', v'⟩ := head
    rw [insertEntry]
    split <;> simp only [List.mem_cons] <;> grind

section Lawful

variable [Std.TransOrd κ] [Std.LawfulEqOrd κ]

theorem ascending_insertEntry (k : κ) (v : α) {l : List (κ × α)}
    (h : l.Pairwise fun a b => compare a.1 b.1 = .lt) :
    (insertEntry k v l).Pairwise fun a b => compare a.1 b.1 = .lt := by
  induction l with
  | nil => simp [insertEntry]
  | cons head tail ih =>
    obtain ⟨k', v'⟩ := head
    obtain ⟨hhead, htail⟩ := List.pairwise_cons.mp h
    rw [insertEntry]
    split
    · rename_i hlt
      refine List.pairwise_cons.mpr ⟨fun e he => ?_, h⟩
      rcases List.mem_cons.mp he with rfl | he
      · exact hlt
      · exact Std.TransCmp.lt_trans hlt (hhead e he)
    · rename_i heq
      refine List.pairwise_cons.mpr ⟨fun e he => ?_, htail⟩
      rw [Std.LawfulEqOrd.eq_of_compare heq]
      exact hhead e he
    · rename_i hgt
      refine List.pairwise_cons.mpr ⟨fun e he => ?_, ih htail⟩
      rcases mem_insertEntry he with rfl | he
      · exact Std.OrientedCmp.lt_of_gt hgt
      · exact hhead e he

/-- The map with `v` stored for `k`, whatever was stored there before. -/
def insert (m : SortedMap κ α) (k : κ) (v : α) : SortedMap κ α :=
  ⟨insertEntry k v m.entries, ascending_insertEntry k v m.ascending⟩

/-- The map of a list of entries; of several entries with one key the last counts. -/
def ofList (l : List (κ × α)) : SortedMap κ α :=
  l.foldl (fun m e => m.insert e.1 e.2) ∅

end Lawful

/-- The map without an entry for `k`. -/
def erase (m : SortedMap κ α) (k : κ) : SortedMap κ α :=
  ⟨m.entries.filter fun e => compare k e.1 != .eq, m.ascending.filter _⟩

/-- The map with every value replaced by a function of its key and itself. -/
def mapValues (f : κ → α → β) (m : SortedMap κ α) : SortedMap κ β :=
  ⟨m.entries.map fun e => (e.1, f e.1 e.2), List.pairwise_map.mpr m.ascending⟩

/-! ### Look-ups after an operation -/

@[simp] theorem get?_empty (k : κ) : (∅ : SortedMap κ α).get? k = none := rfl

theorem lookup_eq_none_iff {k : κ} {l : List (κ × α)} :
    lookup k l = none ↔ ∀ e ∈ l, compare k e.1 ≠ .eq := by
  induction l with
  | nil => simp [lookup]
  | cons head tail ih =>
    obtain ⟨k', v'⟩ := head
    rw [lookup]
    split <;> simp_all

section Lawful

variable [Std.TransOrd κ] [Std.LawfulEqOrd κ]

theorem mem_of_lookup {k : κ} {v : α} {l : List (κ × α)} (h : lookup k l = some v) :
    (k, v) ∈ l := by
  induction l with
  | nil => simp [lookup] at h
  | cons head tail ih =>
    obtain ⟨k', v'⟩ := head
    rw [lookup] at h
    split at h
    · rename_i heq
      rw [Std.LawfulEqOrd.eq_of_compare heq]
      simp_all
    · exact List.mem_cons_of_mem _ (ih h)

theorem lookup_of_mem {k : κ} {v : α} {l : List (κ × α)}
    (hl : l.Pairwise fun a b => compare a.1 b.1 = .lt) (h : (k, v) ∈ l) :
    lookup k l = some v := by
  induction l with
  | nil => simp at h
  | cons head tail ih =>
    obtain ⟨k', v'⟩ := head
    obtain ⟨hhead, htail⟩ := List.pairwise_cons.mp hl
    rw [lookup]
    rcases List.mem_cons.mp h with h | h
    · injection h with hk hv
      subst hk hv
      rw [if_pos Std.ReflCmp.compare_self]
    · have hlt := hhead _ h
      rw [if_neg, ih htail h]
      intro heq
      simp only at hlt
      rw [Std.LawfulEqOrd.eq_of_compare heq] at hlt
      simp at hlt

theorem mem_entries_iff {m : SortedMap κ α} {k : κ} {v : α} :
    (k, v) ∈ m.entries ↔ m.get? k = some v :=
  ⟨lookup_of_mem m.ascending, mem_of_lookup⟩

theorem lookup_insertEntry_self (k : κ) (v : α) (l : List (κ × α)) :
    lookup k (insertEntry k v l) = some v := by
  induction l with
  | nil => simp [insertEntry, lookup]
  | cons head tail ih =>
    obtain ⟨k', v'⟩ := head
    rw [insertEntry]
    split
    · simp [lookup]
    · simp [lookup]
    · rename_i hgt
      rw [lookup, if_neg (by simp [hgt]), ih]

theorem lookup_insertEntry_of_ne {k k' : κ} (v : α) (l : List (κ × α)) (h : k' ≠ k) :
    lookup k' (insertEntry k v l) = lookup k' l := by
  have hne : compare k' k ≠ .eq := fun heq => h (Std.LawfulEqOrd.eq_of_compare heq)
  induction l with
  | nil => simp [insertEntry, lookup, hne]
  | cons head tail ih =>
    obtain ⟨j, w⟩ := head
    rw [insertEntry]
    split
    · rw [lookup, if_neg hne]
    · rename_i heq
      have := Std.LawfulEqOrd.eq_of_compare heq
      subst this
      simp [lookup, hne]
    · rw [lookup, ih, lookup]

@[simp] theorem get?_insert_self (m : SortedMap κ α) (k : κ) (v : α) :
    (m.insert k v).get? k = some v :=
  lookup_insertEntry_self k v m.entries

theorem get?_insert_of_ne (m : SortedMap κ α) {k k' : κ} (v : α) (h : k' ≠ k) :
    (m.insert k v).get? k' = m.get? k' :=
  lookup_insertEntry_of_ne v m.entries h

theorem get?_insert [DecidableEq κ] (m : SortedMap κ α) (k k' : κ) (v : α) :
    (m.insert k v).get? k' = if k' = k then some v else m.get? k' := by
  split
  · rename_i h; subst h; simp
  · rename_i h; exact get?_insert_of_ne m v h

/-- **A map is determined by its look-ups.** -/
theorem ext_lookup {l₁ l₂ : List (κ × α)}
    (h₁ : l₁.Pairwise fun a b => compare a.1 b.1 = .lt)
    (h₂ : l₂.Pairwise fun a b => compare a.1 b.1 = .lt)
    (h : ∀ k, lookup k l₁ = lookup k l₂) : l₁ = l₂ := by
  induction l₁ generalizing l₂ with
  | nil =>
    cases l₂ with
    | nil => rfl
    | cons head tail =>
      have := h head.1
      simp [lookup] at this
  | cons head tail ih =>
    cases l₂ with
    | nil =>
      have := h head.1
      simp [lookup] at this
    | cons head' tail' =>
      obtain ⟨k, v⟩ := head
      obtain ⟨k', v'⟩ := head'
      obtain ⟨hhead, htail⟩ := List.pairwise_cons.mp h₁
      obtain ⟨hhead', htail'⟩ := List.pairwise_cons.mp h₂
      have hin : (k, v) ∈ (k', v') :: tail' := by
        apply mem_of_lookup
        rw [← h k]
        simp [lookup]
      have hin' : (k', v') ∈ (k, v) :: tail := by
        apply mem_of_lookup
        rw [h k']
        simp [lookup]
      have hkey : (k, v) = (k', v') := by
        rcases List.mem_cons.mp hin with heq | hmem
        · exact heq
        · rcases List.mem_cons.mp hin' with heq' | hmem'
          · exact heq'.symm
          · have hlt := hhead' _ hmem
            have hlt' := hhead _ hmem'
            have := Std.TransCmp.lt_trans hlt hlt'
            simp at this
      injection hkey with hk hv
      subst hk hv
      congr 1
      refine ih htail htail' fun j => ?_
      by_cases hj : compare j k = .eq
      · have hjk := Std.LawfulEqOrd.eq_of_compare hj
        subst hjk
        rw [lookup_eq_none_iff.mpr, lookup_eq_none_iff.mpr]
        · intro e he heq
          have hlt := hhead' e he
          simp only at hlt
          rw [heq] at hlt
          cases hlt
        · intro e he heq
          have hlt := hhead e he
          simp only at hlt
          rw [heq] at hlt
          cases hlt
      · have := h j
        rwa [lookup, if_neg hj, lookup, if_neg hj] at this

/-- Two maps that answer every look-up alike are equal. -/
theorem ext_get? {m₁ m₂ : SortedMap κ α} (h : ∀ k, m₁.get? k = m₂.get? k) : m₁ = m₂ := by
  obtain ⟨l₁, h₁⟩ := m₁
  obtain ⟨l₂, h₂⟩ := m₂
  congr
  exact ext_lookup h₁ h₂ h

@[simp] theorem get?_erase_self (m : SortedMap κ α) (k : κ) : (m.erase k).get? k = none := by
  rw [get?, erase, lookup_eq_none_iff]
  intro e he
  simpa using (List.mem_filter.mp he).2

theorem get?_erase_of_ne (m : SortedMap κ α) {k k' : κ} (h : k' ≠ k) :
    (m.erase k).get? k' = m.get? k' := by
  cases hm : m.get? k' with
  | none =>
    rw [get?, lookup_eq_none_iff] at hm ⊢
    exact fun e he => hm e (List.mem_filter.mp he).1
  | some v =>
    rw [← mem_entries_iff] at hm ⊢
    refine List.mem_filter.mpr ⟨hm, ?_⟩
    simpa using fun heq => h (Std.LawfulEqOrd.eq_of_compare heq).symm

theorem get?_erase [DecidableEq κ] (m : SortedMap κ α) (k k' : κ) :
    (m.erase k).get? k' = if k' = k then none else m.get? k' := by
  split
  · rename_i h; subst h; simp
  · rename_i h; exact get?_erase_of_ne m h

@[simp] theorem get?_mapValues (f : κ → α → β) (m : SortedMap κ α) (k : κ) :
    (m.mapValues f).get? k = (m.get? k).map (f k) := by
  obtain ⟨l, hl⟩ := m
  simp only [get?, mapValues]
  clear hl
  induction l with
  | nil => simp [lookup]
  | cons head tail ih =>
    obtain ⟨j, w⟩ := head
    simp only [List.map_cons, lookup]
    split
    · rename_i heq
      rw [Std.LawfulEqOrd.eq_of_compare heq]
      simp
    · exact ih

/-! ### Keys and sizes -/

theorem mem_keys_iff {m : SortedMap κ α} {k : κ} : k ∈ m.keys ↔ (m.get? k).isSome := by
  rw [keys, List.mem_map, Option.isSome_iff_exists]
  constructor
  · rintro ⟨⟨j, v⟩, he, rfl⟩
    exact ⟨v, mem_entries_iff.mp he⟩
  · rintro ⟨v, hv⟩
    exact ⟨(k, v), mem_entries_iff.mpr hv, rfl⟩

theorem pairwise_keys (m : SortedMap κ α) : m.keys.Pairwise fun a b => compare a b = .lt :=
  List.pairwise_map.mpr m.ascending

/-- Erasing a present key makes the map smaller. -/
theorem size_erase_lt {m : SortedMap κ α} {k : κ} (h : m.contains k = true) :
    (m.erase k).size < m.size := by
  obtain ⟨v, hv⟩ := Option.isSome_iff_exists.mp h
  rw [size, erase, size]
  refine List.length_filter_lt_length_iff_exists.mpr ⟨(k, v), mem_entries_iff.mpr hv, ?_⟩
  simp

theorem size_erase_le (m : SortedMap κ α) (k : κ) : (m.erase k).size ≤ m.size :=
  List.length_filter_le ..

end Lawful

end SortedMap

end RegionPolicy
