import RegionPolicy.Json.Reader
import RegionPolicy.Proofs.SinglePrecision

/-!
# Numbers that are read are finite

A number in a text may have any exponent, and so be beyond all floats. Where the reader multiplies it
tests what comes out, and refuses the number if that is infinite. Where it divides, or takes an
integer as it is, it tests nothing. Still no number that is read is infinite, or no number at all.

For integers that is because they have 64 binary digits at most. For quotients the digits have to be
counted, and rounding is what could make it fail, since it may turn a number into one that has a digit
more. But dividing by a power of ten takes one away first: **a finite float has 1024 digits before the
point at most, and divided by two or more it has 1023.**

Of the powers of ten themselves no more is needed than that they are two or more. Up to `10 ^ 22` they
are looked up; from there on they are rounded from their exact values, and rounding keeps the leading
digits of a number. Should one of them be rounded to infinity, quotients would be zero.

## Main definitions

* `Fits` — what is packed into a finite float.
* `roundingExponent` — where a number is rounded.
* `IsTwoOrMore` — the divisors that are large enough.

## Main results

* `roundWithAccuracy_cases` — what can come out of rounding.
* `isFinite_div` — a finite float divided by two or more is finite.
* `isTwoOrMore_powerOfTen` — powers of ten are two or more.
* `Json.NumberText.isFinite_of_value?` — **a number that is read is finite.**
-/

namespace RegionPolicy

open Float.Model Float.Model.UnpackedFloat

/-! ### Binary digits -/

theorem log2_lt_of_lt {n k : ℕ} (hk : 0 < k) (hn : n < 2 ^ k) : n.log2 < k := by
  by_cases h0 : n = 0
  · rw [h0]
    exact hk
  · exact (Nat.log2_lt h0).mpr hn

theorem log2_shiftLeft_le (n k : ℕ) : (n <<< k).log2 ≤ n.log2 + k := by
  rw [Nat.shiftLeft_eq]
  by_cases h0 : n = 0
  · simp [h0]
  · rw [log2_mul_pow h0]

theorem log2_div_add_log2_le {m d : ℕ} (h : 0 < m / d) : (m / d).log2 + d.log2 ≤ m.log2 := by
  have hd : d ≠ 0 := by
    rintro rfl
    simp at h
  have hm : m ≠ 0 := by
    rintro rfl
    simp at h
  rw [Nat.le_log2 hm, pow_add]
  calc 2 ^ (m / d).log2 * 2 ^ d.log2
      ≤ m / d * d := Nat.mul_le_mul (Nat.log2_self_le h.ne') (Nat.log2_self_le hd)
    _ ≤ m := Nat.div_mul_le_self m d

/-! ### Packing -/

/-- Zero, or a number whose exponent is not too large for a float. -/
def Fits : UnpackedFloat → Prop
  | .zero _ => True
  | .finite _ _ e _ => e ≤ 971
  | .infinity _ | .notANumber => False

theorem isFinite_of_unpackExponent {x : Float} {b : BitVec Format.binary64.numBits}
    (hx : x.toModel.toBits.toBitVec = b) (hb : (unpackExponent b).toNat ≠ 2047) :
    isFinite x = true := by
  rw [toNat_unpackExponent, ← hx] at hb
  rw [isFinite, bne_iff_ne]
  exact hb

/-- **What fits is packed into a finite float.** -/
theorem isFinite_of_pack {x : Float} {u : UnpackedFloat} (hx : x.toModel = Float.Model.pack u)
    (hu : Fits u) : isFinite x = true := by
  have hbits : x.toModel.toBits.toBitVec = UnpackedFloat.pack Format.binary64 u := by
    rw [hx]
    rfl
  refine isFinite_of_unpackExponent hbits ?_
  cases u with
  | infinity s => exact hu.elim
  | notANumber => exact hu.elim
  | zero s =>
    rw [UnpackedFloat.pack, packedZero, unpackExponent_packComponents]
    decide
  | finite s m e h =>
    have he : e ≤ 971 := hu
    have hbiased : (e + (Format.binary64.exponentBias : ℤ) + (52 : ℕ)).toNat + 1 < 2048 := by
      show (e + 1023 + 52).toNat + 1 < 2048
      omega
    rw [UnpackedFloat.pack]
    dsimp only
    rw [if_neg (Nat.not_le.mpr hbiased)]
    split
    · rw [unpackExponent_packComponents, BitVec.toNat_ofNat, Nat.mod_eq_of_lt (by omega)]
      omega
    · rw [unpackExponent_packComponents]
      decide

/-- A finite float is zero, or has 53 binary digits at most and an exponent that is not too large. -/
theorem unpack_of_isFinite {x : Float} (h : isFinite x = true) :
    (∃ s, x.toModel.unpack = .zero s) ∨
      ∃ s m e hpos, x.toModel.unpack = .finite s m e hpos ∧ m < 2 ^ 53 ∧ e ≤ 971 := by
  have hfinite := isFinite_unpack h
  rcases hunpack : x.toModel.unpack with s | _ | s | ⟨s, m, e, hpos⟩
  · rw [hunpack] at hfinite
    cases hfinite
  · rw [hunpack] at hfinite
    cases hfinite
  · exact .inl ⟨s, rfl⟩
  · have hbounds := Binary.ofFloat_bounds h
    rw [Binary.ofFloat_of_unpack hunpack] at hbounds
    dsimp only at hbounds
    exact .inr ⟨s, m, e, hpos, rfl, by omega, by omega⟩

theorem isFinite_neg {x : Float} (h : isFinite x = true) : isFinite (-x) = true := by
  refine isFinite_of_pack (u := x.toModel.unpack.neg) rfl ?_
  rcases unpack_of_isFinite h with ⟨s, hx⟩ | ⟨s, m, e, hpos, hx, -, he⟩
  · rw [hx]
    trivial
  · rw [hx]
    exact he

/-! ### Rounding -/

theorem mantissa_shiftRight (em : ExtendedMantissa) (j : ℕ) :
    (em >>> j).mantissa = em.mantissa / 2 ^ j := by
  show (j.repeat ExtendedMantissa.shiftRightOne em).mantissa = _
  induction j with
  | zero => simp [Nat.repeat]
  | succ j ih =>
    rw [Nat.repeat, ExtendedMantissa.shiftRightOne, ih, Nat.div_div_eq_div_mul, Nat.pow_succ]

theorem roundedMantissa_bounds (em : ExtendedMantissa) :
    em.mantissa ≤ em.roundedMantissa ∧ em.roundedMantissa ≤ em.mantissa + 1 := by
  obtain ⟨m, r, s⟩ := em
  cases r <;> cases s <;>
    simp only [ExtendedMantissa.roundedMantissa, ExtendedMantissa.accuracy,
      Accuracy.roundToNearestEven] <;> omega

theorem mantissa_ofMantissaAndAccuracy (m : ℕ) (acc : Accuracy) :
    (ExtendedMantissa.ofMantissaAndAccuracy m acc).mantissa = m := by
  rcases acc with _ | ⟨_ | _ | _⟩ <;> rfl

/-- The exponent at which a number is rounded: that of a number with 53 binary digits, or the least
that there is, unless its own is greater. -/
def roundingExponent (m : ℕ) (e : ℤ) : ℤ :=
  max e (max (m.log2 + 1 + e - 53) (-1074))

theorem shiftToTargetExponent_eq (m : ℕ) (e : ℤ) (acc : Accuracy) :
    shiftToTargetExponent Format.binary64 m e acc =
      (ExtendedMantissa.ofMantissaAndAccuracy m acc >>> (roundingExponent m e - e).toNat,
        roundingExponent m e) := by
  have htarget : Format.binary64.targetExponent (totalExponent m e) =
      max (m.log2 + 1 + e - 53) (-1074) := rfl
  rw [shiftToTargetExponent, shiftToExponent, htarget, roundingExponent]
  generalize max ((m.log2 : ℤ) + 1 + e - 53) (-1074) = target
  have hshift : (target - e).toNat = (max e target - e).toNat := by omega
  have hexponent : e + ((target - e).toNat : ℤ) = max e target := by omega
  rw [hexponent, hshift]

/-- What is left of a number at its rounding exponent has 53 binary digits at most. -/
theorem div_roundingExponent_lt (m : ℕ) (e : ℤ) :
    m / 2 ^ (roundingExponent m e - e).toNat < 2 ^ 53 := by
  have hshift : m.log2 + 1 ≤ 53 + (roundingExponent m e - e).toNat := by
    rw [roundingExponent]
    omega
  rw [Nat.div_lt_iff_lt_mul (by positivity), ← pow_add]
  exact Nat.lt_log2_self.trans_le (Nat.pow_le_pow_right (by decide) hshift)

/-- Of a number with more digits, and not among the least, 53 are left. -/
theorem le_div_roundingExponent {m : ℕ} {e : ℤ} (hm : 52 ≤ m.log2)
    (he : -1074 ≤ (m.log2 : ℤ) - 52 + e) :
    2 ^ 52 ≤ m / 2 ^ (roundingExponent m e - e).toNat := by
  have hshift : (roundingExponent m e - e).toNat = m.log2 - 52 := by
    rw [roundingExponent]
    omega
  have hne : m ≠ 0 := by
    rintro rfl
    exact absurd hm (by decide)
  rw [hshift, Nat.le_div_iff_mul_le (by positivity), ← pow_add, Nat.add_sub_cancel' hm]
  exact Nat.log2_self_le hne

/-- A significand of 53 binary digits at most is not shifted again, and the next one is shifted
once. -/
theorem shiftToTargetExponent_rounded {r : ℕ} (hr : r ≤ 2 ^ 53) {e : ℤ} (he : -1074 ≤ e) :
    shiftToTargetExponent Format.binary64 r e .exact =
      if r < 2 ^ 53 then (⟨r, false, false⟩, e) else (⟨2 ^ 52, false, false⟩, e + 1) := by
  rw [shiftToTargetExponent_eq]
  split
  · rename_i hlt
    have hlog : r.log2 < 53 := log2_lt_of_lt (by decide) hlt
    have hexponent : roundingExponent r e = e := by
      rw [roundingExponent]
      omega
    rw [hexponent, sub_self]
    rfl
  · obtain rfl : r = 2 ^ 53 := by omega
    have hexponent : roundingExponent (2 ^ 53) e = e + 1 := by
      rw [roundingExponent, Nat.log2_two_pow]
      omega
    rw [hexponent, add_sub_cancel_left]
    rfl

/-- **Rounding** drops what lies below the rounding exponent, or adds one to what is left; at most
there is a carry. -/
theorem roundWithAccuracy_cases (s : Sign) (m : ℕ) (e : ℤ) (acc : Accuracy) :
    let low := m / 2 ^ (roundingExponent m e - e).toNat
    (low = 0 ∧ roundWithAccuracy Format.binary64 s m e acc = .zero s) ∨
      (∃ r h, low ≤ r ∧ r < 2 ^ 53 ∧
        roundWithAccuracy Format.binary64 s m e acc = .finite s r (roundingExponent m e) h) ∨
      roundWithAccuracy Format.binary64 s m e acc =
        .finite s (2 ^ 52) (roundingExponent m e + 1) (by decide) := by
  intro low
  obtain ⟨hlow, hhigh⟩ := roundedMantissa_bounds
    (ExtendedMantissa.ofMantissaAndAccuracy m acc >>> (roundingExponent m e - e).toNat)
  rw [mantissa_shiftRight, mantissa_ofMantissaAndAccuracy] at hlow hhigh
  have hlt : low < 2 ^ 53 := div_roundingExponent_lt m e
  have hle : -1074 ≤ roundingExponent m e := by
    rw [roundingExponent]
    omega
  rw [roundWithAccuracy, shiftToTargetExponent_eq m e acc]
  dsimp only
  generalize (ExtendedMantissa.ofMantissaAndAccuracy m acc >>>
    (roundingExponent m e - e).toNat).roundedMantissa = r at hlow hhigh ⊢
  have hrounded := shiftToTargetExponent_rounded (r := r) (by omega) hle
  by_cases hcarry : r < 2 ^ 53
  · rw [if_pos hcarry] at hrounded
    simp only [hrounded]
    by_cases h0 : r = 0
    · exact .inl ⟨Nat.le_zero.mp (h0 ▸ hlow), dif_pos h0⟩
    · exact .inr (.inl ⟨r, Nat.pos_of_ne_zero h0, hlow, hcarry, dif_neg h0⟩)
  · rw [if_neg hcarry] at hrounded
    simp only [hrounded]
    exact .inr (.inr (dif_neg (by decide)))

theorem fits_roundWithAccuracy (s : Sign) {m : ℕ} {e : ℤ} (h : roundingExponent m e ≤ 970)
    (acc : Accuracy) : Fits (roundWithAccuracy Format.binary64 s m e acc) := by
  rcases roundWithAccuracy_cases s m e acc with ⟨-, heq⟩ | ⟨r, hpos, -, -, heq⟩ | heq
  · rw [heq]
    trivial
  · rw [heq]
    exact h.trans (by decide)
  · rw [heq]
    exact Int.add_le_add_right h 1

/-! ### Naturals and integers -/

theorem fits_round (s : Sign) {n : ℕ} (hn : n < 2 ^ 64) :
    Fits (UnpackedFloat.round Format.binary64 s n 0) := by
  have hlog : n.log2 < 64 := log2_lt_of_lt (by decide) hn
  rw [UnpackedFloat.round, decreaseExponent]
  generalize (0 - Format.binary64.targetExponent (totalExponent n 0)).toNat = k
  have hshift := log2_shiftLeft_le n k
  refine fits_roundWithAccuracy s ?_ .exact
  rw [roundingExponent]
  omega

/-- **A natural of 64 binary digits is a finite float.** -/
theorem isFinite_toFloat (n : UInt64) : isFinite n.toFloat = true := by
  refine isFinite_of_pack (u := UnpackedFloat.normalize Format.binary64 (n.toNat : ℤ) 0 .positive)
    rfl ?_
  have hn : n.toNat < 2 ^ 64 := n.toNat_lt
  rw [UnpackedFloat.normalize]
  split
  · exact fits_round .negative (by omega)
  · trivial
  · exact fits_round .positive (by omega)

/-- A decimal is rounded from its exact value. -/
theorem ofScientific_eq {n k : ℕ} (hn : n ≠ 0) (hk : k ≤ 308) :
    UnpackedFloat.ofScientific Format.binary64 n k =
      roundWithAccuracy Format.binary64 .positive (n * 10 ^ k * 2 ^ 53) (-53) .exact := by
  have hlarge : ¬ (k : ℤ) > 2 ^ 11 := by omega
  have hsmall : ¬ (k : ℤ) < -(2 ^ 11 + (n.log2 : ℤ)) := by omega
  rw [UnpackedFloat.ofScientific, dif_neg hn, if_neg hlarge, if_neg hsmall,
    if_pos (Int.natCast_nonneg k), UnpackedFloat.mul, Nat.shiftLeft_eq, Int.toNat_natCast,
    Nat.mul_right_comm]
  rfl

/-- The float of a natural is looked up, or rounded from its exact value. -/
theorem isFinite_ofNat {n : ℕ} (hn : n < 2 ^ 64) : isFinite (Float.ofNat n) = true := by
  show isFinite (Float.ofScientific n false 0) = true
  by_cases hsmall : n < 2 ^ 53 ∧ 0 ≤ 22
  · rw [Float.ofScientific, dif_pos hsmall]
    refine isFinite_of_pack (u := UnpackedFloat.mul Format.binary64
      (UInt64.ofNat n).toFloat.toModel.unpack
      (Float.ofBits (UInt64.ofNat (1023 * Nat.pow 2 52))).toModel.unpack) rfl ?_
    rw [unpack_ofBits_power (by decide) (by decide)]
    rcases Nat.eq_zero_or_pos n with rfl | hpos
    · trivial
    · obtain ⟨hlow, hhigh⟩ := padded_bounds hpos hsmall.1
      obtain ⟨hpadded, hunpack⟩ := unpack_toFloat hpos hsmall.1
      have hexponent : -(padding n : ℤ) + (((1023 : ℕ) : ℤ) - 1075) = -padding n - (52 : ℕ) := by
        omega
      rw [hunpack, UnpackedFloat.mul, hexponent, roundWithAccuracy_mul_pow _ hpadded hlow hhigh
        (by rw [padding]; omega) 52]
      show -(padding n : ℤ) ≤ 971
      omega
  · rw [Float.ofScientific, dif_neg hsmall]
    refine isFinite_of_pack (u := UnpackedFloat.ofScientific Format.binary64 n (0 : ℕ)) rfl ?_
    have hne : n ≠ 0 := by omega
    have hlog : n.log2 < 64 := log2_lt_of_lt (by decide) hn
    rw [ofScientific_eq hne (by decide), pow_zero, mul_one]
    refine fits_roundWithAccuracy _ ?_ .exact
    rw [roundingExponent, log2_mul_pow hne]
    omega

/-- **An integer of 64 binary digits is a finite float.** -/
theorem isFinite_ofInt {i : ℤ} (hi : i.natAbs < 2 ^ 64) : isFinite (Float.ofInt i) = true := by
  cases i with
  | ofNat n => exact isFinite_ofNat hi
  | negSucc n => exact isFinite_neg (isFinite_ofNat hi)

/-! ### Division by powers of ten -/

/-- Infinite, or two at least. -/
inductive IsTwoOrMore (p : Float) : Prop where
  | infinite {s : Sign} (h : p.toModel.unpack = .infinity s)
  | finite {s : Sign} {m : ℕ} {e : ℤ} {hpos : 0 < m} (h : p.toModel.unpack = .finite s m e hpos)
    (htwo : 2 ≤ totalExponent m e)

instance : DecidablePred IsTwoOrMore := fun p =>
  match h : p.toModel.unpack with
  | .infinity _ => .isTrue (.infinite h)
  | .finite _ m e _ =>
    if htwo : 2 ≤ totalExponent m e then .isTrue (.finite h htwo)
    else .isFalse (by rintro (h' | ⟨h', htwo'⟩) <;> rw [h] at h' <;> cases h'; exact htwo htwo')
  | .zero _ => .isFalse (by rintro (h' | ⟨h', -⟩) <;> rw [h] at h' <;> cases h')
  | .notANumber => .isFalse (by rintro (h' | ⟨h', -⟩) <;> rw [h] at h' <;> cases h')

/-- A quotient has one binary digit more than the difference at most, and rounding may add another. -/
theorem fits_div {s s' : Sign} {m m' : ℕ} {e e' : ℤ} {h : 0 < m} {h' : 0 < m'} (hm : m < 2 ^ 53)
    (he : e ≤ 971) (hp : 2 ≤ totalExponent m' e') :
    Fits (UnpackedFloat.div Format.binary64 (.finite s m e h) (.finite s' m' e' h')) := by
  have hlog : m.log2 < 53 := log2_lt_of_lt (by decide) hm
  have htarget : Format.binary64.targetExponent (totalExponent m e - totalExponent m' e') =
      max (m.log2 + 1 + e - (m'.log2 + 1 + e') - 53) (-1074) := rfl
  have hp : 2 ≤ (m'.log2 : ℤ) + 1 + e' := hp
  rw [UnpackedFloat.div, divCore, htarget]
  dsimp only
  generalize ht : min (e - e') (max ((m.log2 : ℤ) + 1 + e - (m'.log2 + 1 + e') - 53) (-1074)) = t
  generalize hk : (e - e' - t).toNat = k
  have hshift := log2_shiftLeft_le m k
  refine fits_roundWithAccuracy _ ?_ _
  rw [roundingExponent]
  rcases Nat.eq_zero_or_pos (m <<< k / m') with h0 | hpos
  · rw [h0, Nat.log2_zero]
    omega
  · have hquotient := log2_div_add_log2_le hpos
    omega

/-- **A finite float divided by two or more is finite.** -/
theorem isFinite_div {x p : Float} (hx : isFinite x = true) (hp : IsTwoOrMore p) :
    isFinite (x / p) = true := by
  refine isFinite_of_pack
    (u := UnpackedFloat.div Format.binary64 x.toModel.unpack p.toModel.unpack) rfl ?_
  rcases unpack_of_isFinite hx with ⟨s, hx⟩ | ⟨s, m, e, h, hx, hm, he⟩ <;>
    rcases hp with hp | ⟨hp, htwo⟩ <;> rw [hx, hp]
  · trivial
  · trivial
  · trivial
  · exact fits_div hm he htwo

theorem unpack_packedInfinity (s : Sign) :
    UnpackedFloat.unpack Format.binary64 (packedInfinity Format.binary64 s) = .infinity s := by
  cases s <;> rfl

theorem isTwoOrMore_of_pack {x : Float} {s : Sign} {m : ℕ} {e : ℤ} {h : 0 < m}
    (hx : x.toModel = Float.Model.pack (.finite s m e h)) (hlow : 2 ^ 52 ≤ m) (hhigh : m < 2 ^ 53)
    (he : -51 ≤ e) : IsTwoOrMore x := by
  have hunpack : x.toModel.unpack =
      UnpackedFloat.unpack Format.binary64 (UnpackedFloat.pack Format.binary64 (.finite s m e h)) := by
    rw [hx]
    rfl
  by_cases he' : e ≤ 971
  · refine .finite (hunpack.trans (unpack_pack hlow hhigh (by omega) he')) ?_
    show 2 ≤ (m.log2 : ℤ) + 1 + e
    rw [log2_eq hlow hhigh]
    omega
  · have hbiased : 2048 ≤ (e + (Format.binary64.exponentBias : ℤ) + (52 : ℕ)).toNat + 1 := by
      show 2048 ≤ (e + 1023 + 52).toNat + 1
      omega
    rw [UnpackedFloat.pack] at hunpack
    dsimp only at hunpack
    rw [if_pos hbiased, unpack_packedInfinity] at hunpack
    exact .infinite hunpack

/-- A power of ten that is not looked up is rounded from its exact value. -/
theorem toModel_powerOfTen {n : ℕ} (h : 22 < n) (hn : n ≤ 308) :
    (Gathered.powerOfTen n).toModel = Float.Model.pack
      (roundWithAccuracy Format.binary64 .positive (10 ^ n * 2 ^ 53) (-53) .exact) := by
  rw [Gathered.powerOfTen, Float.ofScientific, dif_neg (by omega)]
  show Float.Model.pack (UnpackedFloat.ofScientific Format.binary64 1 n) = _
  rw [← one_mul (10 ^ n), ← ofScientific_eq one_ne_zero hn]

/-- **A power of ten is two or more.** -/
theorem isTwoOrMore_powerOfTen {n : ℕ} (h : 0 < n) (hn : n ≤ 308) :
    IsTwoOrMore (Gathered.powerOfTen n) := by
  rcases Nat.lt_or_ge 22 n with hlarge | hsmall
  · have hmodel := toModel_powerOfTen hlarge hn
    have hpower : 1 ≤ (10 ^ n).log2 := by
      rw [Nat.le_log2 (by positivity)]
      calc 2 ^ 1 ≤ 10 ^ 1 := by decide
        _ ≤ 10 ^ n := Nat.pow_le_pow_right (by decide) h
    have hlog : (10 ^ n * 2 ^ 53).log2 = (10 ^ n).log2 + 53 := log2_mul_pow (by positivity) 53
    have hexponent : roundingExponent (10 ^ n * 2 ^ 53) (-53) = (10 ^ n).log2 - 52 := by
      rw [roundingExponent, hlog]
      omega
    have hdigits := le_div_roundingExponent (m := 10 ^ n * 2 ^ 53) (e := -53)
      (by omega) (by omega)
    rcases roundWithAccuracy_cases .positive (10 ^ n * 2 ^ 53) (-53) .exact with
      ⟨h0, heq⟩ | ⟨r, hpos, hlow, hhigh, heq⟩ | heq
    · rw [h0] at hdigits
      exact absurd hdigits (by decide)
    · rw [heq] at hmodel
      exact isTwoOrMore_of_pack hmodel (hdigits.trans hlow) hhigh (by omega)
    · rw [heq] at hmodel
      exact isTwoOrMore_of_pack hmodel le_rfl (by norm_num) (by omega)
  · have hexact : ∀ n < 23, 0 < n → IsTwoOrMore (Gathered.powerOfTen n) := by decide +kernel
    exact hexact n (by omega) h

/-! ### Numbers of a text -/

namespace Gathered

theorem isFinite_divideByPower {f : Float} {n : ℕ} (hf : isFinite f = true) (hn : 0 < n) :
    isFinite (divideByPower f n) = true := by
  induction f, n using divideByPower.induct with
  | case1 f n hle =>
    rw [divideByPower, if_pos hle]
    exact isFinite_div hf (isTwoOrMore_powerOfTen hn hle)
  | case2 f n hle h0 =>
    rw [divideByPower, if_neg hle, if_pos h0]
    exact hf
  | case3 f n hle h0 ih =>
    have hpower := isTwoOrMore_powerOfTen (n := 308) (by omega) le_rfl
    rw [divideByPower, if_neg hle, if_neg h0]
    exact ih (isFinite_div hf hpower) (by omega)

/-- **A decimal that is read as a float is read as a finite one.** -/
theorem isFinite_of_toFloat? {g : Gathered} {x : Float} (h : g.toFloat? = some x) :
    isFinite x = true := by
  have hf := isFinite_toFloat (UInt64.ofNat g.significand)
  rw [toFloat?] at h
  dsimp only at h
  split at h
  · split at h
    · split at h
      · rename_i hproduct
        exact Option.some.inj h ▸ hproduct
      · cases h
    · split at h
      · exact Option.some.inj h ▸ hf
      · cases h
  · exact Option.some.inj h ▸ isFinite_divideByPower hf (by omega)

end Gathered

namespace Json

/-- **A number that is read is finite.** -/
theorem NumberText.isFinite_of_value? {t : NumberText} {n : Number} (h : t.value? = some n) :
    isFinite n.toFloat = true := by
  rw [value?] at h
  simp only [Nat.pow_eq] at h
  split at h
  · rename_i hinteger
    obtain rfl := Option.some.inj h
    simp only [Bool.and_eq_true, decide_eq_true_eq] at hinteger
    exact isFinite_ofInt (by omega)
  · split at h
    · rename_i hinteger
      obtain rfl := Option.some.inj h
      simp only [Bool.and_eq_true, decide_eq_true_eq] at hinteger
      exact isFinite_ofInt (by omega)
    · obtain ⟨f, hf, rfl⟩ := Option.map_eq_some_iff.mp h
      have hfinite := Gathered.isFinite_of_toFloat? hf
      show isFinite (if t.negative then -f else f) = true
      split
      · exact isFinite_neg hfinite
      · exact hfinite

end Json

end RegionPolicy
