import Mathlib
import RegionPolicy.Geometry.Position

/-!
# The order of floats

Every float but NaN has a rank in a linear order, and the comparisons of floats are those of their
ranks. Two floats of the same rank are the same number: they are the same float, or both are zero.
So whatever is decided by comparisons sees the ranks only, and `lesser` and `greater` are minimum
and maximum there.

## Main definitions

* `rank?` — the rank of a float; NaN has none.
* `Spans` — two coordinates that are the least and the greatest of some.
* `Bounds` — the least and the greatest of some numbers.

## Main results

* `lt_iff_rank?`, `le_iff_rank?`, `beq_iff_rank?` — comparisons are comparisons of ranks.
* `isNaN_eq_false_iff`, `isNaN_of_isFinite` — all floats but NaN have ranks, finite ones above all.
* `rank?_lesser`, `rank?_greater` — the lesser of two coordinates has the lesser rank.
* `Spans.widen`, `Bounds.widen` — least and greatest stay so when one more coordinate is taken in.
-/

namespace RegionPolicy

open Float.Model Float.Model.UnpackedFloat

/-! ### Ranks -/

/-- The place of a number among all: its class from minus infinity to infinity, and for a finite
number the exponent and the significand, turned around below zero. -/
abbrev Rank : Type := ℤ ×ₗ ℤ ×ₗ ℤ

/-- The rank in a class. -/
def Rank.mk (cls exponent significand : ℤ) : Rank :=
  toLex (cls, toLex (exponent, significand))

theorem Rank.mk_lt_mk {c c' e e' m m' : ℤ} :
    Rank.mk c e m < Rank.mk c' e' m' ↔ c < c' ∨ c = c' ∧ (e < e' ∨ e = e' ∧ m < m') := by
  simp [Rank.mk, Prod.Lex.toLex_lt_toLex]

theorem Rank.mk_eq_mk {c c' e e' m m' : ℤ} :
    Rank.mk c e m = Rank.mk c' e' m' ↔ c = c' ∧ e = e' ∧ m = m' := by
  simp [Rank.mk]

/-- The rank of the parts of a float. -/
def unpackedRank? : UnpackedFloat → Option Rank
  | .notANumber => none
  | .infinity .negative => some (.mk (-2) 0 0)
  | .finite .negative m e _ => some (.mk (-1) (-e) (-m))
  | .zero _ => some (.mk 0 0 0)
  | .finite .positive m e _ => some (.mk 1 e m)
  | .infinity .positive => some (.mk 2 0 0)

/-- The rank of a float; NaN has none. -/
def rank? (x : Float) : Option Rank :=
  unpackedRank? x.toModel.unpack

/-- Exponents are compared first, and then significands. -/
theorem compare_then_eq_lt_iff {e e' : ℤ} {m m' : ℕ} :
    (compare e e').then (compare m m') = .lt ↔ e < e' ∨ e = e' ∧ m < m' := by
  rw [Ordering.then_eq_lt, compare_lt_iff_lt, compare_lt_iff_lt, compare_eq_iff_eq]

theorem compare_then_eq_gt_iff {e e' : ℤ} {m m' : ℕ} :
    (compare e e').then (compare m m') = .gt ↔ e' < e ∨ e = e' ∧ m' < m := by
  rw [Ordering.then_eq_gt, compare_gt_iff_gt, compare_gt_iff_gt, compare_eq_iff_eq]

theorem compare_negative_positive : compare Sign.negative Sign.positive = .lt := rfl

theorem compare_sign_self (s : Sign) : compare s s = .eq := by
  cases s <;> rfl

/-- One number is less than the other just if its rank is. -/
theorem unpackedCompare_eq_lt_iff (u v : UnpackedFloat) :
    u.compare v = some .lt ↔ ∃ i ∈ unpackedRank? u, ∃ j ∈ unpackedRank? v, i < j := by
  rcases u with ⟨_ | _⟩ | _ | _ | ⟨_ | _, _, _⟩ <;>
    rcases v with ⟨_ | _⟩ | _ | _ | ⟨_ | _, _, _⟩ <;>
    simp [UnpackedFloat.compare, unpackedRank?, Rank.mk_lt_mk, compare_then_eq_lt_iff,
      compare_then_eq_gt_iff, compare_negative_positive]

/-- Two numbers compare equal just if their ranks are. -/
theorem unpackedCompare_eq_eq_iff (u v : UnpackedFloat) :
    u.compare v = some .eq ↔ ∃ i ∈ unpackedRank? u, ∃ j ∈ unpackedRank? v, i = j := by
  rcases u with ⟨_ | _⟩ | _ | _ | ⟨_ | _, _, _⟩ <;>
    rcases v with ⟨_ | _⟩ | _ | _ | ⟨_ | _, _, _⟩ <;>
    simp [UnpackedFloat.compare, unpackedRank?, Rank.mk_eq_mk, compare_sign_self] <;>
    omega

/-! ### Comparisons -/

theorem lt_iff_rank? {x y : Float} : x < y ↔ ∃ i ∈ rank? x, ∃ j ∈ rank? y, i < j := by
  have h : x < y ↔ x.toModel.unpack.compare y.toModel.unpack = some .lt := by
    show decide (x.toModel.unpack.lt y.toModel.unpack = true) = true ↔ _
    rw [UnpackedFloat.lt, decide_eq_true_iff, beq_iff_eq]
  rw [h, unpackedCompare_eq_lt_iff]
  rfl

theorem beq_iff_rank? {x y : Float} : (x == y) = true ↔ ∃ i ∈ rank? x, ∃ j ∈ rank? y, i = j := by
  have h : (x == y) = true ↔ x.toModel.unpack.compare y.toModel.unpack = some .eq := by
    show x.toModel.unpack.beq y.toModel.unpack = true ↔ _
    rw [UnpackedFloat.beq, beq_iff_eq]
  rw [h, unpackedCompare_eq_eq_iff]
  rfl

theorem le_iff_lt_or_beq {x y : Float} : x ≤ y ↔ x < y ∨ (x == y) = true := by
  show decide (x.toModel.unpack.le y.toModel.unpack = true) = true ↔
    decide (x.toModel.unpack.lt y.toModel.unpack = true) = true ∨
      x.toModel.unpack.beq y.toModel.unpack = true
  rw [decide_eq_true_iff, decide_eq_true_iff, UnpackedFloat.le, UnpackedFloat.lt,
    UnpackedFloat.beq]
  rcases x.toModel.unpack.compare y.toModel.unpack with _ | _ | _ | _ <;> decide

theorem le_iff_rank? {x y : Float} : x ≤ y ↔ ∃ i ∈ rank? x, ∃ j ∈ rank? y, i ≤ j := by
  rw [le_iff_lt_or_beq, lt_iff_rank?, beq_iff_rank?]
  constructor
  · rintro (⟨i, hi, j, hj, hij⟩ | ⟨i, hi, j, hj, hij⟩)
    · exact ⟨i, hi, j, hj, hij.le⟩
    · exact ⟨i, hi, j, hj, hij.le⟩
  · rintro ⟨i, hi, j, hj, hij⟩
    rcases hij.lt_or_eq with hlt | heq
    · exact .inl ⟨i, hi, j, hj, hlt⟩
    · exact .inr ⟨i, hi, j, hj, heq⟩

/-! ### Numbers that have ranks -/

theorem isNaN_eq_false_iff {x : Float} : x.isNaN = false ↔ ∃ i, rank? x = some i := by
  show x.toModel.unpack.isNaN = false ↔ ∃ i, unpackedRank? x.toModel.unpack = some i
  rcases x.toModel.unpack with ⟨_ | _⟩ | _ | _ | ⟨_ | _, _, _⟩ <;>
    simp [UnpackedFloat.isNaN, unpackedRank?]

/-- The exponent of a float is a field of its bits. -/
theorem toNat_unpackExponent (b : BitVec Format.binary64.numBits) :
    (unpackExponent b).toNat = b.toNat / Nat.pow 2 52 % Nat.pow 2 11 := by
  rw [unpackExponent, BitVec.toNat_cast, BitVec.extractLsb_toNat, Nat.shiftRight_eq_div_pow]
  rfl

/-- A finite float is unpacked as zero or as a finite number. -/
theorem isFinite_unpack {x : Float} (h : isFinite x = true) : x.toModel.unpack.isFinite = true := by
  let bits : BitVec Format.binary64.numBits := x.toModel.toBits.toBitVec
  have hexponent : unpackExponent bits ≠ -(BitVec.ofNat Format.binary64.exponentBits 1) := by
    intro hall
    have hnat := toNat_unpackExponent bits
    rw [hall] at hnat
    rw [isFinite, bne_iff_ne] at h
    exact h hnat.symm
  show (UnpackedFloat.unpack Format.binary64 bits).isFinite = true
  rw [UnpackedFloat.unpack]
  dsimp only
  rw [if_neg hexponent]
  split
  · split <;> rfl
  · rfl

/-- **A finite float is a number,** and so has a rank. -/
theorem isNaN_of_isFinite {x : Float} (h : isFinite x = true) : x.isNaN = false := by
  have hunpack := isFinite_unpack h
  show x.toModel.unpack.isNaN = false
  generalize x.toModel.unpack = u at hunpack
  cases u with
  | notANumber => cases hunpack
  | infinity | zero | finite => rfl

/-! ### Comparisons -/

section Comparisons

variable {x y z : Float}

theorem lt_asymm_float (h : x < y) : ¬ y < x := by
  rw [lt_iff_rank?] at h ⊢
  obtain ⟨i, hi, j, hj, hij⟩ := h
  rintro ⟨j', hj', i', hi', hji⟩
  obtain rfl := Option.mem_unique hi hi'
  obtain rfl := Option.mem_unique hj hj'
  exact lt_asymm hij hji

theorem lt_iff_of_rank? {i j : Rank} (hx : rank? x = some i) (hy : rank? y = some j) :
    x < y ↔ i < j := by
  rw [lt_iff_rank?, hx, hy]
  simp

theorem le_refl_float (hx : x.isNaN = false) : x ≤ x := by
  obtain ⟨i, hi⟩ := isNaN_eq_false_iff.mp hx
  exact le_iff_rank?.mpr ⟨i, hi, i, hi, le_rfl⟩

theorem isNaN_of_le_left (h : x ≤ y) : x.isNaN = false := by
  obtain ⟨i, hi, -⟩ := le_iff_rank?.mp h
  exact isNaN_eq_false_iff.mpr ⟨i, hi⟩

theorem isNaN_of_le_right (h : x ≤ y) : y.isNaN = false := by
  obtain ⟨-, -, j, hj, -⟩ := le_iff_rank?.mp h
  exact isNaN_eq_false_iff.mpr ⟨j, hj⟩

theorem isNaN_of_lt_right (h : x < y) : y.isNaN = false := by
  obtain ⟨-, -, j, hj, -⟩ := lt_iff_rank?.mp h
  exact isNaN_eq_false_iff.mpr ⟨j, hj⟩

theorem le_trans_float (h : x ≤ y) (h' : y ≤ z) : x ≤ z := by
  rw [le_iff_rank?] at *
  obtain ⟨i, hi, j, hj, hij⟩ := h
  obtain ⟨j', hj', k, hk, hjk⟩ := h'
  obtain rfl := Option.mem_unique hj hj'
  exact ⟨i, hi, k, hk, hij.trans hjk⟩

theorem lt_of_lt_of_le_float (h : x < y) (h' : y ≤ z) : x < z := by
  rw [le_iff_rank?] at h'
  rw [lt_iff_rank?] at h ⊢
  obtain ⟨i, hi, j, hj, hij⟩ := h
  obtain ⟨j', hj', k, hk, hjk⟩ := h'
  obtain rfl := Option.mem_unique hj hj'
  exact ⟨i, hi, k, hk, hij.trans_le hjk⟩

theorem lt_of_le_of_lt_float (h : x ≤ y) (h' : y < z) : x < z := by
  rw [le_iff_rank?] at h
  rw [lt_iff_rank?] at h' ⊢
  obtain ⟨i, hi, j, hj, hij⟩ := h
  obtain ⟨j', hj', k, hk, hjk⟩ := h'
  obtain rfl := Option.mem_unique hj hj'
  exact ⟨i, hi, k, hk, hij.trans_lt hjk⟩

theorem not_lt_iff_le_float (hx : x.isNaN = false) (hy : y.isNaN = false) :
    ¬ x < y ↔ y ≤ x := by
  obtain ⟨i, hi⟩ := isNaN_eq_false_iff.mp hx
  obtain ⟨j, hj⟩ := isNaN_eq_false_iff.mp hy
  rw [lt_iff_of_rank? hi hj, le_iff_rank?, hi, hj, not_lt]
  simp

theorem not_lt_of_le_float (h : x ≤ y) : ¬ y < x :=
  (not_lt_iff_le_float (isNaN_of_le_right h) (isNaN_of_le_left h)).mpr h

theorem le_and_le_iff_beq : x ≤ y ∧ y ≤ x ↔ (x == y) = true := by
  rw [le_iff_rank?, le_iff_rank?, beq_iff_rank?]
  constructor
  · rintro ⟨⟨i, hi, j, hj, hij⟩, j', hj', i', hi', hji⟩
    obtain rfl := Option.mem_unique hi hi'
    obtain rfl := Option.mem_unique hj hj'
    exact ⟨i, hi, j, hj, hij.antisymm hji⟩
  · rintro ⟨i, hi, j, hj, rfl⟩
    exact ⟨⟨i, hi, i, hj, le_rfl⟩, i, hj, i, hi, le_rfl⟩

theorem rank?_eq_of_beq (h : (x == y) = true) : rank? x = rank? y := by
  obtain ⟨i, hi, j, hj, rfl⟩ := beq_iff_rank?.mp h
  exact hi.trans hj.symm

theorem beq_of_rank?_eq (hx : x.isNaN = false) (h : rank? x = rank? y) :
    (x == y) = true := by
  obtain ⟨i, hi⟩ := isNaN_eq_false_iff.mp hx
  exact beq_iff_rank?.mpr ⟨i, hi, i, h ▸ hi, rfl⟩

/-- Numbers that are neither above nor below each other are the same. -/
theorem beq_iff_not_lt (hx : x.isNaN = false) (hy : y.isNaN = false) :
    (x == y) = true ↔ ¬ (x < y ∨ y < x) := by
  obtain ⟨i, hi⟩ := isNaN_eq_false_iff.mp hx
  obtain ⟨j, hj⟩ := isNaN_eq_false_iff.mp hy
  rw [lt_iff_of_rank? hi hj, lt_iff_of_rank? hj hi, ← ne_iff_lt_or_gt, not_not, beq_iff_rank?,
    hi, hj]
  constructor
  · rintro ⟨_, ⟨⟩, _, ⟨⟩, hij⟩
    exact hij
  · intro hij
    exact ⟨i, rfl, j, rfl, hij⟩

theorem le_congr {x x' y y' : Float} (hx : rank? x = rank? x') (hy : rank? y = rank? y') :
    x ≤ y ↔ x' ≤ y' := by
  rw [le_iff_rank?, le_iff_rank?, hx, hy]

theorem lt_congr {x x' y y' : Float} (hx : rank? x = rank? x') (hy : rank? y = rank? y') :
    x < y ↔ x' < y' := by
  rw [lt_iff_rank?, lt_iff_rank?, hx, hy]

end Comparisons

/-! ### Least and greatest -/

theorem lesser_of_number (x : Float) {y : Float} (hy : y.isNaN = false) :
    lesser x y = if x < y then x else y := by
  simp only [lesser, hy, Bool.or_false, decide_eq_true_eq]

theorem greater_of_number (x : Float) {y : Float} (hy : y.isNaN = false) :
    greater x y = if y < x then x else y := by
  simp only [greater, hy, Bool.or_false, decide_eq_true_eq]

section Ranked

variable {x y : Float} {i j : Rank} (hx : rank? x = some i) (hy : rank? y = some j)
include hx hy

theorem rank?_lesser : rank? (lesser x y) = some (min i j) := by
  rw [lesser_of_number x (isNaN_eq_false_iff.mpr ⟨j, hy⟩)]
  split
  · rename_i h
    rw [hx, min_eq_left ((lt_iff_of_rank? hx hy).mp h).le]
  · rename_i h
    rw [hy, min_eq_right (not_lt.mp fun hij => h ((lt_iff_of_rank? hx hy).mpr hij))]

theorem rank?_greater : rank? (greater x y) = some (max i j) := by
  rw [greater_of_number x (isNaN_eq_false_iff.mpr ⟨j, hy⟩)]
  split
  · rename_i h
    rw [hx, max_eq_left ((lt_iff_of_rank? hy hx).mp h).le]
  · rename_i h
    rw [hy, max_eq_right (not_lt.mp fun hij => h ((lt_iff_of_rank? hy hx).mpr hij))]

end Ranked

/-- The lesser of two coordinates is one of them. -/
theorem lesser_cases (P : Float → Prop) {x y : Float} (hx : P x) (hy : P y) : P (lesser x y) := by
  rw [lesser]
  split
  · exact hx
  · exact hy

/-- The greater of two coordinates is one of them. -/
theorem greater_cases (P : Float → Prop) {x y : Float} (hx : P x) (hy : P y) :
    P (greater x y) := by
  rw [greater]
  split
  · exact hx
  · exact hy

theorem isNaN_lesser {x y : Float} (hx : x.isNaN = false) (hy : y.isNaN = false) :
    (lesser x y).isNaN = false :=
  lesser_cases (·.isNaN = false) hx hy

theorem isNaN_greater {x y : Float} (hx : x.isNaN = false) (hy : y.isNaN = false) :
    (greater x y).isNaN = false :=
  greater_cases (·.isNaN = false) hx hy

section Numbers

variable {x y : Float} (hx : x.isNaN = false) (hy : y.isNaN = false)
include hx hy

/-- The lesser of the lesser and the greater is the lesser, but perhaps for the sign of zero. -/
theorem rank?_lesser_lesser_greater :
    rank? (lesser (lesser x y) (greater x y)) = rank? (lesser x y) := by
  obtain ⟨i, hi⟩ := isNaN_eq_false_iff.mp hx
  obtain ⟨j, hj⟩ := isNaN_eq_false_iff.mp hy
  rw [rank?_lesser (rank?_lesser hi hj) (rank?_greater hi hj), rank?_lesser hi hj,
    min_eq_left ((min_le_left i j).trans (le_max_left i j))]

theorem rank?_greater_lesser_greater :
    rank? (greater (lesser x y) (greater x y)) = rank? (greater x y) := by
  obtain ⟨i, hi⟩ := isNaN_eq_false_iff.mp hx
  obtain ⟨j, hj⟩ := isNaN_eq_false_iff.mp hy
  rw [rank?_greater (rank?_lesser hi hj) (rank?_greater hi hj), rank?_greater hi hj,
    max_eq_right ((min_le_left i j).trans (le_max_left i j))]

/-- Of two numbers in order the lesser is the first, but perhaps for the sign of zero. -/
theorem rank?_lesser_of_le (h : x ≤ y) : rank? (lesser x y) = rank? x := by
  obtain ⟨i, hi⟩ := isNaN_eq_false_iff.mp hx
  obtain ⟨j, hj⟩ := isNaN_eq_false_iff.mp hy
  rw [le_iff_rank?, hi, hj] at h
  rw [rank?_lesser hi hj, hi, min_eq_left (by simpa using h)]

theorem rank?_greater_of_le (h : x ≤ y) : rank? (greater x y) = rank? y := by
  obtain ⟨i, hi⟩ := isNaN_eq_false_iff.mp hx
  obtain ⟨j, hj⟩ := isNaN_eq_false_iff.mp hy
  rw [le_iff_rank?, hi, hj] at h
  rw [rank?_greater hi hj, hj, max_eq_right (by simpa using h)]

end Numbers

section Ends

variable {x y z : Float}

theorem lesser_le_of_le_left (h : x ≤ z) (hy : y.isNaN = false) : lesser x y ≤ z := by
  rw [le_iff_rank?] at h ⊢
  obtain ⟨i, hi, k, hk, hik⟩ := h
  obtain ⟨j, hj⟩ := isNaN_eq_false_iff.mp hy
  exact ⟨min i j, rank?_lesser hi hj, k, hk, (min_le_left i j).trans hik⟩

theorem lesser_le_right (hx : x.isNaN = false) (hy : y.isNaN = false) : lesser x y ≤ y := by
  obtain ⟨i, hi⟩ := isNaN_eq_false_iff.mp hx
  obtain ⟨j, hj⟩ := isNaN_eq_false_iff.mp hy
  exact le_iff_rank?.mpr ⟨min i j, rank?_lesser hi hj, j, hj, min_le_right i j⟩

theorem le_greater_of_le_left (h : z ≤ x) (hy : y.isNaN = false) : z ≤ greater x y := by
  rw [le_iff_rank?] at h ⊢
  obtain ⟨k, hk, i, hi, hki⟩ := h
  obtain ⟨j, hj⟩ := isNaN_eq_false_iff.mp hy
  exact ⟨k, hk, max i j, rank?_greater hi hj, hki.trans (le_max_left i j)⟩

theorem le_greater_right (hx : x.isNaN = false) (hy : y.isNaN = false) : y ≤ greater x y := by
  obtain ⟨i, hi⟩ := isNaN_eq_false_iff.mp hx
  obtain ⟨j, hj⟩ := isNaN_eq_false_iff.mp hy
  exact le_iff_rank?.mpr ⟨j, hj, max i j, rank?_greater hi hj, le_max_right i j⟩

end Ends

/-! ### Least and greatest of some -/

/-- Two coordinates that are the least and the greatest of some: they are the same, or one is less
than the other. -/
def Spans (low high : Float) : Prop :=
  low = high ∨ low < high

@[simp] theorem lesser_self (x : Float) : lesser x x = x := ite_self x

@[simp] theorem greater_self (x : Float) : greater x x = x := ite_self x

theorem Spans.lesser_eq {low high : Float} (h : Spans low high) : lesser low high = low := by
  rcases h with rfl | h
  · exact lesser_self low
  · exact if_pos (by simp [h])

theorem Spans.greater_eq {low high : Float} (h : Spans low high) : greater low high = high := by
  rcases h with rfl | h
  · exact greater_self low
  · rw [greater_of_number low (isNaN_of_lt_right h), if_neg (lt_asymm_float h)]

theorem Spans.le {low high : Float} (h : Spans low high) (hlow : low.isNaN = false) :
    low ≤ high := by
  rcases h with rfl | h
  · exact le_refl_float hlow
  · exact le_iff_lt_or_beq.mpr (.inl h)

/-- **Least and greatest stay so when one more coordinate is taken in,** also if it is no number:
beside numbers it does not count. -/
theorem Spans.widen {low high : Float} (h : Spans low high) (x : Float) :
    Spans (lesser low x) (greater high x) := by
  cases hx : x.isNaN with
  | true =>
    rw [lesser, greater, hx, Bool.or_true, Bool.or_true, if_pos rfl, if_pos rfl]
    exact h
  | false =>
    rw [lesser_of_number low hx, greater_of_number high hx]
    by_cases hlow : low < x
    · rw [if_pos hlow]
      by_cases hhigh : x < high
      · rw [if_pos hhigh]
        exact h
      · rw [if_neg hhigh]
        exact .inr hlow
    · rw [if_neg hlow]
      by_cases hhigh : x < high
      · rw [if_pos hhigh]
        exact .inr hhigh
      · rw [if_neg hhigh]
        exact .inl rfl

/-- Two of some values that have all of them in between; all of them are numbers then. -/
structure Bounds (values : List Float) (low high : Float) : Prop where
  low_mem : low ∈ values
  high_mem : high ∈ values
  between : ∀ x ∈ values, low ≤ x ∧ x ≤ high

namespace Bounds

variable {values values' : List Float} {low high : Float}

theorem singleton {x : Float} (hx : x.isNaN = false) : Bounds [x] x x :=
  ⟨List.mem_singleton_self x, List.mem_singleton_self x,
    List.forall_mem_singleton.mpr ⟨le_refl_float hx, le_refl_float hx⟩⟩

/-- The bounds of some values depend on which values there are only. -/
theorem congr (h : Bounds values low high) (hvalues : ∀ x, x ∈ values ↔ x ∈ values') :
    Bounds values' low high :=
  ⟨(hvalues low).mp h.low_mem, (hvalues high).mp h.high_mem,
    fun x hx => h.between x ((hvalues x).mpr hx)⟩

theorem isNaN_low (h : Bounds values low high) : low.isNaN = false :=
  isNaN_of_le_left (h.between low h.low_mem).1

theorem isNaN_high (h : Bounds values low high) : high.isNaN = false :=
  isNaN_of_le_left (h.between high h.high_mem).2

/-- One more value is taken in by one comparison at either end. -/
theorem widen (h : Bounds values low high) {x : Float} (hx : x.isNaN = false) :
    Bounds (values ++ [x]) (lesser low x) (greater high x) := by
  have hold : ∀ {y}, y ∈ values → y ∈ values ++ [x] := fun hy => List.mem_append_left _ hy
  have hnew : x ∈ values ++ [x] := List.mem_append_right _ (List.mem_singleton_self x)
  refine ⟨lesser_cases (· ∈ _) (hold h.low_mem) hnew, greater_cases (· ∈ _) (hold h.high_mem) hnew,
    List.forall_mem_append.mpr ⟨fun y hy => ?_, List.forall_mem_singleton.mpr ?_⟩⟩
  · obtain ⟨hlowy, hyhigh⟩ := h.between y hy
    exact ⟨lesser_le_of_le_left hlowy hx, le_greater_of_le_left hyhigh hx⟩
  · exact ⟨lesser_le_right h.isNaN_low hx, le_greater_right h.isNaN_high hx⟩

end Bounds

end RegionPolicy
