import RegionPolicy.Collection.Walk
import RegionPolicy.Proofs.Collections
import Mathlib.Data.List.Chain

/-!
# Following links

`SortedMap.follow` uses up the entries that it passes, which is why it ends, but it is not how one
wants to reason about it. Where every value knows its own key, the entries used up make no
difference to a chain that does not come back to them, and a chain never comes back: so a walk can
be read in the whole map.

## Main definitions

* `SortedMap.Keyed` — every value knows the key under which it is stored.

## Main results

* `SortedMap.nodup_follow`, `SortedMap.isChain_follow` — no key is passed twice, and each value
  links to the next.
* `SortedMap.follow_erase`, `SortedMap.follow_eq_cons` — the walk, read in the whole map.
* `SortedMap.follow_insert` — a new entry can only lengthen a chain, at its end.
* `SortedMap.follow_mapValues` — changes that leave the links alone leave the walk alone.
-/

set_option linter.unusedSectionVars false

namespace RegionPolicy

universe u v w

namespace SortedMap

variable {κ : Type u} {α : Type v} {β : Type w} [Ord κ] [Std.TransOrd κ] [Std.LawfulEqOrd κ]

/-! ### Values that know their keys -/

/-- Every value is stored under its own key. -/
def Keyed (key : α → κ) (m : SortedMap κ α) : Prop :=
  ∀ k a, m.get? k = some a → key a = k

theorem keyed_empty (key : α → κ) : (∅ : SortedMap κ α).Keyed key := by
  intro k a h
  simp at h

theorem Keyed.mem_values_iff {key : α → κ} {m : SortedMap κ α} (h : m.Keyed key) {a : α} :
    a ∈ m.values ↔ m.get? (key a) = some a := by
  rw [SortedMap.mem_values_iff]
  constructor
  · rintro ⟨k, ha⟩
    exact h k a ha ▸ ha
  · exact fun ha => ⟨key a, ha⟩

theorem Keyed.map_values {key : α → κ} {m : SortedMap κ α} (h : m.Keyed key) :
    m.values.map key = m.keys := by
  rw [values, keys, List.map_map]
  exact List.map_congr_left fun e he => h e.1 e.2 (mem_entries_iff.mp he)

section Decidable

variable [DecidableEq κ] {key : α → κ} {m : SortedMap κ α}

theorem Keyed.erase (h : m.Keyed key) (k : κ) : (m.erase k).Keyed key := by
  intro j a hj
  exact h j a (get?_of_get?_erase hj)

theorem Keyed.insert (h : m.Keyed key) {k : κ} {a : α} (ha : key a = k) :
    (m.insert k a).Keyed key := by
  intro j b hj
  rw [get?_insert] at hj
  split at hj
  · rename_i hjk
    rw [hjk, ← Option.some.inj hj, ha]
  · exact h j b hj

theorem Keyed.mapValues (h : m.Keyed key) {f : κ → α → α} (hf : ∀ k a, key (f k a) = key a) :
    (m.mapValues f).Keyed key := by
  intro k b hb
  rw [get?_mapValues] at hb
  obtain ⟨a, ha, rfl⟩ := Option.map_eq_some_iff.mp hb
  rw [hf, h k a ha]

end Decidable

/-! ### Unfolding a walk -/

variable {next : α → Option κ} {key : α → κ} {m : SortedMap κ α}

@[simp] theorem follow_none (next : α → Option κ) (m : SortedMap κ α) :
    follow next m none = [] := by
  rw [follow]

theorem follow_of_get?_eq_none {k : κ} (h : m.get? k = none) : follow next m (some k) = [] := by
  rw [follow]
  split
  · rfl
  · simp_all

theorem follow_of_get?_eq_some {k : κ} {a : α} (h : m.get? k = some a) :
    follow next m (some k) = a :: follow next (m.erase k) (next a) := by
  rw [follow]
  split <;> simp_all

/-- Induction along a walk: nowhere to go, nobody there, or one more value. -/
theorem follow_induction (next : α → Option κ) {motive : SortedMap κ α → Option κ → Prop}
    (nowhere : ∀ m, motive m none)
    (missing : ∀ m k, m.get? k = none → motive m (some k))
    (found : ∀ m k a, m.get? k = some a → motive (m.erase k) (next a) → motive m (some k))
    (m : SortedMap κ α) (start : Option κ) : motive m start := by
  induction m, start using follow.induct next with
  | case1 m => exact nowhere m
  | case2 m k h => exact missing m k h
  | case3 m k a h ih => exact found m k a h ih

section Decidable

variable [DecidableEq κ]

theorem get?_of_mem_follow (hm : m.Keyed key) {start : Option κ} {a : α}
    (ha : a ∈ follow next m start) : m.get? (key a) = some a := by
  induction m, start using follow_induction next with
  | nowhere m => simp at ha
  | missing m k h => simp [follow_of_get?_eq_none h] at ha
  | found m k b h ih =>
    rw [follow_of_get?_eq_some h] at ha
    rcases List.mem_cons.mp ha with rfl | ha
    · rw [hm k a h, h]
    · exact get?_of_get?_erase (ih (hm.erase k) ha)

/-- What holds of the key where a walk begins and of every key that is linked to, holds of every
key that the walk passes. -/
theorem key_of_mem_follow (hm : m.Keyed key) {motive : κ → Prop} {start : Option κ}
    (hstart : ∀ k, start = some k → motive k) (hnext : ∀ a k, next a = some k → motive k) {a : α}
    (ha : a ∈ follow next m start) : motive (key a) := by
  induction m, start using follow_induction next with
  | nowhere m => simp at ha
  | missing m k h => simp [follow_of_get?_eq_none h] at ha
  | found m k b h ih =>
    rw [follow_of_get?_eq_some h] at ha
    rcases List.mem_cons.mp ha with rfl | ha
    · rw [hm k a h]
      exact hstart k rfl
    · exact ih (hm.erase k) (hnext b) ha

/-- A walk through a map without a key does not pass the key. -/
theorem key_ne_of_mem_follow_erase (hm : m.Keyed key) {k : κ} {start : Option κ} {a : α}
    (ha : a ∈ follow next (m.erase k) start) : key a ≠ k := by
  have hget := get?_of_mem_follow (hm.erase k) ha
  intro hk
  rw [hk, get?_erase_self] at hget
  cases hget

/-- **No key is passed twice.** -/
theorem nodup_follow (hm : m.Keyed key) (start : Option κ) :
    ((follow next m start).map key).Nodup := by
  induction m, start using follow_induction next with
  | nowhere m => simp
  | missing m k h => simp [follow_of_get?_eq_none h]
  | found m k a h ih =>
    rw [follow_of_get?_eq_some h, List.map_cons, List.nodup_cons]
    refine ⟨fun hmem => ?_, ih (hm.erase k)⟩
    obtain ⟨b, hb, hkey⟩ := List.mem_map.mp hmem
    exact key_ne_of_mem_follow_erase hm hb (hkey.trans (hm k a h))

/-- The walk begins where it was told to. -/
theorem head?_follow (hm : m.Keyed key) {start : Option κ} {a : α}
    (h : (follow next m start).head? = some a) : start = some (key a) := by
  cases start with
  | none => simp at h
  | some k =>
    cases hk : m.get? k with
    | none => simp [follow_of_get?_eq_none hk] at h
    | some b =>
      rw [follow_of_get?_eq_some hk, List.head?_cons] at h
      rw [← Option.some.inj h, hm k b hk]

/-- Each value of a walk links to the next. -/
theorem isChain_follow (hm : m.Keyed key) (start : Option κ) :
    (follow next m start).IsChain fun a b => next a = some (key b) := by
  induction m, start using follow_induction next with
  | nowhere m => simp
  | missing m k h => simp [follow_of_get?_eq_none h]
  | found m k a h ih =>
    rw [follow_of_get?_eq_some h, List.isChain_cons]
    exact ⟨fun b hb => head?_follow (hm.erase k) hb, ih (hm.erase k)⟩

/-! ### Walks in changed maps -/

/-- **Entries that a walk does not pass make no difference to it.** -/
theorem follow_erase (hm : m.Keyed key) {k : κ} {start : Option κ}
    (h : ∀ a ∈ follow next m start, key a ≠ k) :
    follow next (m.erase k) start = follow next m start := by
  induction m, start using follow_induction next with
  | nowhere m => simp
  | missing m j hj =>
    rw [follow_of_get?_eq_none hj]
    refine follow_of_get?_eq_none ?_
    rw [get?_erase]
    split
    · rfl
    · exact hj
  | found m j a hj ih =>
    rw [follow_of_get?_eq_some hj] at h ⊢
    have hjk : j ≠ k := hm j a hj ▸ h a List.mem_cons_self
    have hget : (m.erase k).get? j = some a := by rw [get?_erase_of_ne m hjk, hj]
    rw [follow_of_get?_eq_some hget, erase_comm,
      ih (hm.erase j) fun b hb => h b (List.mem_cons_of_mem a hb)]

/-- One step of a walk that does not come back to where it began. -/
theorem follow_eq_cons (hm : m.Keyed key) {k : κ} {a : α} (hk : m.get? k = some a)
    (h : ∀ b ∈ follow next m (next a), key b ≠ k) :
    follow next m (some k) = a :: follow next m (next a) := by
  rw [follow_of_get?_eq_some hk, follow_erase hm h]

/-- **A new entry can only lengthen a walk at its end.** -/
theorem follow_insert (next : α → Option κ) {k : κ} (hk : m.get? k = none) (a : α)
    (start : Option κ) : follow next m start <+: follow next (m.insert k a) start := by
  induction m, start using follow_induction next with
  | nowhere m => simp
  | missing m j hj =>
    rw [follow_of_get?_eq_none hj]
    exact List.nil_prefix
  | found m j b hj ih =>
    have hjk : j ≠ k := by
      rintro rfl
      simp [hk] at hj
    have hget : (m.insert k a).get? j = some b := by rw [get?_insert_of_ne m a hjk, hj]
    rw [follow_of_get?_eq_some hj, follow_of_get?_eq_some hget, erase_insert_of_ne m a hjk,
      List.cons_prefix_cons]
    refine ⟨rfl, ih ?_⟩
    rw [get?_erase_of_ne m hjk.symm, hk]

/-- **Changes that leave the links alone leave the walk alone.** -/
theorem follow_mapValues (hm : m.Keyed key) {f : κ → α → α} (hf : ∀ k a, next (f k a) = next a)
    (start : Option κ) :
    follow next (m.mapValues f) start = (follow next m start).map fun a => f (key a) a := by
  induction m, start using follow_induction next with
  | nowhere m => simp
  | missing m k hk =>
    rw [follow_of_get?_eq_none hk, follow_of_get?_eq_none (by simp [hk])]
    rfl
  | found m k a hk ih =>
    have hget : (m.mapValues f).get? k = some (f k a) := by simp [hk]
    rw [follow_of_get?_eq_some hk, follow_of_get?_eq_some hget, erase_mapValues, hf,
      ih (hm.erase k), List.map_cons, hm k a hk]

end Decidable

/-! ### Exploring -/

/-- Where nothing lies beyond a key, exploring finds the key alone. -/
theorem explore_of_no_links [DecidableEq κ] {links : α → List κ} {k : κ} {a : α}
    (hk : m.get? k = some a) (h : links a = []) : m.explore links k = [k] := by
  rw [explore, exploreFrom, if_neg List.not_mem_nil]
  split
  · simp_all
  · rename_i b hb
    rw [hk] at hb
    obtain rfl := Option.some.inj hb
    rw [h, List.append_nil, exploreFrom]
    rfl

end SortedMap

end RegionPolicy
