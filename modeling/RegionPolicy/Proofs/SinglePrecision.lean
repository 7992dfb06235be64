import RegionPolicy.Decimal.Single
import RegionPolicy.Proofs.FloatOrder

/-!
# Values of single precision

Rounding to single precision is done in integers, and a value of single precision is put together as
a float by one multiplication. That such a value stays as it is, is therefore a fact about three
things: the digits of a float, a natural times a power of two as a float, and the rounding of a
significand that ends in zeros.

The middle one holds because neither the factors nor the product need more than 53 binary digits.
So no step of the multiplication drops anything but zeros, and the product is the natural itself,
padded with zeros to full length. Rounding takes the zeros off again, and what is left is put back
on top of its grid.

## Main definitions

* `padding` — the zeros that fill up a natural to the length of a significand.
* `Single.place` — the place of a value among those of its sign.

## Main results

* `roundWithAccuracy_mul_pow` — a number of 53 binary digits is not changed by rounding.
* `Binary.ofFloat_floatOfScaled` — a scaled natural is exact.
* `Single.atPlace_place` — a value is found at its place.
* `Single.isFinite_value` — the float is finite just if the value is.
* `Single.ofFloat_value` — rounding leaves the values of single precision alone.
-/

namespace RegionPolicy

open Float.Model Float.Model.UnpackedFloat

/-! ### The bits of a float -/

theorem log2_eq {m : ℕ} (hlow : 2 ^ 52 ≤ m) (hhigh : m < 2 ^ 53) : m.log2 = 52 :=
  (Nat.log2_eq_iff (by omega)).mpr ⟨hlow, hhigh⟩

theorem log2_mul_pow {m : ℕ} (h : m ≠ 0) (j : ℕ) : (m * 2 ^ j).log2 = m.log2 + j := by
  obtain ⟨hlow, hhigh⟩ := (Nat.log2_eq_iff h).mp rfl
  refine (Nat.log2_eq_iff (Nat.mul_ne_zero h (by positivity))).mpr ⟨?_, ?_⟩
  · rw [pow_add]
    exact Nat.mul_le_mul_right _ hlow
  · rw [Nat.add_right_comm, pow_add]
    exact Nat.mul_lt_mul_of_pos_right hhigh (by positivity)

theorem toNat_unpackMantissa (b : BitVec Format.binary64.numBits) :
    (unpackMantissa b).toNat = b.toNat % Nat.pow 2 52 := by
  rw [unpackMantissa, BitVec.toNat_cast, BitVec.extractLsb_toNat]
  rfl

theorem toNat_unpackSign (b : BitVec Format.binary64.numBits) :
    (unpackSign b).toNat = b.toNat / Nat.pow 2 63 := by
  have hb : b.toNat < 2 ^ 64 := b.isLt
  rw [unpackSign, BitVec.toNat_cast, BitVec.extractLsb_toNat, Nat.shiftRight_eq_div_pow]
  show b.toNat / 2 ^ 63 % 2 ^ 1 = b.toNat / 2 ^ 63
  omega

theorem toNat_packComponents (s : Sign) (e : BitVec 11) (m : BitVec 52) :
    (packComponents Format.binary64 s e m).toNat =
      s.toBitVec.toNat * 2 ^ 63 + e.toNat * 2 ^ 52 + m.toNat := by
  have he := e.isLt
  have hm := m.isLt
  rw [packComponents, BitVec.toNat_append, BitVec.toNat_append,
    ← Nat.shiftLeft_add_eq_or_of_lt hm, ← Nat.shiftLeft_add_eq_or_of_lt he]
  simp only [Nat.shiftLeft_eq]
  omega

theorem unpackSign_packComponents (s : Sign) (e : BitVec 11) (m : BitVec 52) :
    unpackSign (packComponents Format.binary64 s e m) = s.toBitVec := by
  have he := e.isLt
  have hm := m.isLt
  apply BitVec.eq_of_toNat_eq
  rw [toNat_unpackSign, toNat_packComponents, Nat.pow_eq]
  omega

theorem ofBitVec_toBitVec (s : Sign) : Sign.ofBitVec s.toBitVec = s := by
  cases s <;> rfl

/-- The leading digit is not written down, and put back in front. -/
theorem toNat_one_append (b : BitVec 52) : (1#1 ++ b).toNat = 2 ^ 52 + b.toNat := by
  rw [BitVec.toNat_append, ← Nat.shiftLeft_add_eq_or_of_lt b.isLt]
  rfl

/-- The bits of a number with 53 binary digits. -/
theorem pack_finite (s : Sign) {m : ℕ} (h : 0 < m) (hlow : 2 ^ 52 ≤ m) (hhigh : m < 2 ^ 53)
    {n : ℕ} (hn : n < 2047) :
    UnpackedFloat.pack Format.binary64 (.finite s m (n - 1075) h) =
      packComponents Format.binary64 s (BitVec.ofNat 11 n) (BitVec.ofNat 52 m) := by
  have hlog := log2_eq hlow hhigh
  have hbiased : ((n : ℤ) - 1075 + (Format.binary64.exponentBias : ℤ) + (52 : ℕ)).toNat = n := by
    show ((n : ℤ) - 1075 + 1023 + 52).toNat = n
    omega
  rw [UnpackedFloat.pack]
  simp only [hbiased]
  rw [if_neg (by omega), if_pos (by rw [hlog]; rfl)]

/-- A number with 53 binary digits is unpacked as it was packed. -/
theorem unpack_pack {s : Sign} {m : ℕ} {e : ℤ} {h : 0 < m} (hlow : 2 ^ 52 ≤ m)
    (hhigh : m < 2 ^ 53) (he : -1074 ≤ e) (he' : e ≤ 971) :
    UnpackedFloat.unpack Format.binary64 (UnpackedFloat.pack Format.binary64 (.finite s m e h)) =
      .finite s m e h := by
  obtain ⟨n, hn, hn', rfl⟩ : ∃ n : ℕ, 0 < n ∧ n < 2047 ∧ e = n - 1075 :=
    ⟨(e + 1075).toNat, by omega, by omega, by omega⟩
  have hexponent : (BitVec.ofNat 11 n).toNat = n := by
    rw [BitVec.toNat_ofNat, Nat.mod_eq_of_lt (by omega)]
  have hinfinite : BitVec.ofNat 11 n ≠ -1#11 := by
    intro heq
    have hnat : n = 2047 := by rw [← hexponent, heq]; rfl
    omega
  have hsmall : BitVec.ofNat 11 n ≠ 0#11 := by
    intro heq
    have hnat : n = 0 := by rw [← hexponent, heq]; rfl
    omega
  rw [pack_finite s h hlow hhigh hn', UnpackedFloat.unpack]
  simp only [unpackExponent_packComponents, unpackMantissa_packComponents,
    unpackSign_packComponents, ofBitVec_toBitVec]
  rw [if_neg hinfinite, if_neg hsmall]
  congr 1
  · rw [toNat_one_append, BitVec.toNat_ofNat]
    omega
  · show (((BitVec.ofNat 11 n).toNat : ℕ) : ℤ) - (1023 + 52) = n - 1075
    rw [hexponent]
    omega

/-! ### Rounding what is exact -/

/-- Shifting out zeros leaves nothing behind. -/
theorem shiftRight_mul_pow (m j : ℕ) :
    (⟨m * 2 ^ j, false, false⟩ : ExtendedMantissa) >>> j = ⟨m, false, false⟩ := by
  show j.repeat ExtendedMantissa.shiftRightOne _ = _
  induction j generalizing m with
  | zero => simp [Nat.repeat]
  | succ j ih =>
    rw [Nat.repeat, Nat.pow_succ', ← Nat.mul_assoc, ih (m * 2)]
    simp [ExtendedMantissa.shiftRightOne]

theorem shiftToTargetExponent_mul_pow {m : ℕ} (hlow : 2 ^ 52 ≤ m) (hhigh : m < 2 ^ 53) {e : ℤ}
    (he : -1074 ≤ e) (j : ℕ) :
    shiftToTargetExponent Format.binary64 (m * 2 ^ j) (e - j) .exact = (⟨m, false, false⟩, e) := by
  have hlog : (m * 2 ^ j).log2 = 52 + j := by
    rw [log2_mul_pow (by omega), log2_eq hlow hhigh]
  have htarget : Format.binary64.targetExponent (totalExponent (m * 2 ^ j) (e - j)) = e := by
    show max ((((m * 2 ^ j).log2 : ℕ) : ℤ) + 1 + (e - j) - 53) (-1074) = e
    omega
  rw [shiftToTargetExponent, htarget, shiftToExponent]
  have hshift : (e - (e - j)).toNat = j := by omega
  simp only [hshift, ExtendedMantissa.ofMantissaAndAccuracy, shiftRight_mul_pow]
  rw [sub_add_cancel]

/-- **A number with 53 binary digits is not changed by rounding,** however it is written. -/
theorem roundWithAccuracy_mul_pow (s : Sign) {m : ℕ} (h : 0 < m) (hlow : 2 ^ 52 ≤ m)
    (hhigh : m < 2 ^ 53) {e : ℤ} (he : -1074 ≤ e) (j : ℕ) :
    roundWithAccuracy Format.binary64 s (m * 2 ^ j) (e - j) .exact = .finite s m e h := by
  have hagain := shiftToTargetExponent_mul_pow hlow hhigh he 0
  rw [pow_zero, mul_one, Nat.cast_zero, sub_zero] at hagain
  rw [roundWithAccuracy, shiftToTargetExponent_mul_pow hlow hhigh he j]
  simp only [ExtendedMantissa.roundedMantissa, ExtendedMantissa.accuracy,
    Accuracy.roundToNearestEven, hagain]
  rw [dif_neg h.ne']

/-! ### Scaled naturals -/

/-- The zeros that fill up a natural to 53 binary digits. -/
def padding (m : ℕ) : ℕ :=
  52 - m.log2

theorem padded_bounds {m : ℕ} (h : 0 < m) (hm : m < 2 ^ 53) :
    2 ^ 52 ≤ m * 2 ^ padding m ∧ m * 2 ^ padding m < 2 ^ 53 := by
  have hlog : m.log2 < 53 := (Nat.log2_lt h.ne').mpr hm
  obtain ⟨hlow, hhigh⟩ := (Nat.log2_eq_iff h.ne').mp rfl
  have h52 : 2 ^ 52 = 2 ^ m.log2 * 2 ^ padding m := by
    rw [← pow_add, padding, Nat.add_sub_cancel' (by omega)]
  have h53 : 2 ^ 53 = 2 ^ (m.log2 + 1) * 2 ^ padding m := by
    rw [← pow_add, padding]
    congr 1
    omega
  rw [h52, h53]
  exact ⟨Nat.mul_le_mul_right _ hlow, Nat.mul_lt_mul_of_pos_right hhigh (by positivity)⟩

/-- A natural of 53 binary digits at most is padded and nothing else. -/
theorem round_natural (s : Sign) {m : ℕ} (h : 0 < m) (hm : m < 2 ^ 53) :
    ∃ hpos, UnpackedFloat.round Format.binary64 s m 0 =
      .finite s (m * 2 ^ padding m) (-padding m) hpos := by
  obtain ⟨hlow, hhigh⟩ := padded_bounds h hm
  have hlog : m.log2 < 53 := (Nat.log2_lt h.ne').mpr hm
  have htarget : Format.binary64.targetExponent (totalExponent m 0) = -padding m := by
    show max ((m.log2 : ℤ) + 1 + 0 - 53) (-1074) = -padding m
    rw [padding]
    omega
  refine ⟨by omega, ?_⟩
  rw [UnpackedFloat.round, htarget, decreaseExponent]
  simp only [zero_sub, neg_neg, Int.toNat_natCast, Nat.shiftLeft_eq]
  have hround := roundWithAccuracy_mul_pow s (by omega) hlow hhigh
    (show -1074 ≤ -(padding m : ℤ) by rw [padding]; omega) 0
  rw [pow_zero, mul_one, Nat.cast_zero, sub_zero] at hround
  exact hround

theorem unpack_toFloat {m : ℕ} (h : 0 < m) (hm : m < 2 ^ 53) :
    ∃ hpos, (UInt64.ofNat m).toFloat.toModel.unpack =
      .finite .positive (m * 2 ^ padding m) (-padding m) hpos := by
  obtain ⟨hlow, hhigh⟩ := padded_bounds h hm
  obtain ⟨hpos, hround⟩ := round_natural .positive h hm
  refine ⟨hpos, ?_⟩
  have hnat : (UInt64.ofNat m).toNat = m := by
    rw [UInt64.toNat_ofNat', Nat.mod_eq_of_lt (by omega)]
  have hcompare : compare (m : ℤ) 0 = .gt := by
    rw [compare_gt_iff_gt]
    omega
  show UnpackedFloat.unpack Format.binary64 (UnpackedFloat.pack Format.binary64
    (UnpackedFloat.normalize Format.binary64 ((UInt64.ofNat m).toNat : ℤ) 0 .positive)) = _
  rw [hnat, UnpackedFloat.normalize, hcompare]
  simp only [Int.toNat_natCast]
  rw [hround]
  exact unpack_pack hlow hhigh (by rw [padding]; omega) (by omega)

/-- The bits of a power of two. -/
theorem unpack_ofBits_power {n : ℕ} (h : 0 < n) (hn : n < 2047) :
    (Float.ofBits (UInt64.ofNat (n * Nat.pow 2 52))).toModel.unpack =
      .finite .positive (2 ^ 52) (n - 1075) (by positivity) := by
  have hbits : ((UInt64.ofNat (n * Nat.pow 2 52)).toBitVec : BitVec Format.binary64.numBits) =
      UnpackedFloat.pack Format.binary64
        (.finite .positive (2 ^ 52) (n - 1075) (by positivity)) := by
    apply BitVec.eq_of_toNat_eq
    have hsign : Sign.positive.toBitVec.toNat = 0 := rfl
    have hnat : (UInt64.ofNat (n * Nat.pow 2 52)).toBitVec.toNat = n * Nat.pow 2 52 % 2 ^ 64 :=
      UInt64.toNat_ofNat'
    rw [pack_finite _ _ le_rfl (by norm_num) hn, toNat_packComponents, hsign, BitVec.toNat_ofNat,
      BitVec.toNat_ofNat, hnat, Nat.pow_eq]
    omega
  show UnpackedFloat.unpack Format.binary64 (UnpackedFloat.pack Format.binary64
    (UnpackedFloat.unpack Format.binary64 (UInt64.ofNat (n * Nat.pow 2 52)).toBitVec)) = _
  rw [hbits, unpack_pack le_rfl (by norm_num) (by omega) (by omega),
    unpack_pack le_rfl (by norm_num) (by omega) (by omega)]

/-- **A scaled natural is exact,** padded with zeros. -/
theorem unpack_floatOfScaled {m : ℕ} (h : 0 < m) (hm : m < 2 ^ 53) {q : ℤ} (hq : -1022 ≤ q)
    (hq' : q ≤ 971) (hsum : -1074 + padding m ≤ q) :
    ∃ hpos, (floatOfScaled m q).toModel.unpack =
      .finite .positive (m * 2 ^ padding m) (q - padding m) hpos := by
  obtain ⟨hlow, hhigh⟩ := padded_bounds h hm
  obtain ⟨hpos, hnatural⟩ := unpack_toFloat h hm
  have hpower := unpack_ofBits_power (n := (q + 1023).toNat) (by omega) (by omega)
  refine ⟨hpos, ?_⟩
  show UnpackedFloat.unpack Format.binary64 (UnpackedFloat.pack Format.binary64
    (UnpackedFloat.mul Format.binary64 (UInt64.ofNat m).toFloat.toModel.unpack
      (Float.ofBits (UInt64.ofNat ((q + 1023).toNat * Nat.pow 2 52))).toModel.unpack)) = _
  rw [hnatural, hpower, UnpackedFloat.mul]
  have hexponent : -(padding m : ℤ) + (((q + 1023).toNat : ℤ) - 1075) =
      q - padding m - (52 : ℕ) := by
    omega
  rw [hexponent, roundWithAccuracy_mul_pow (.positive * .positive) hpos hlow hhigh (by omega) 52]
  exact unpack_pack hlow hhigh (by omega) (by omega)

/-! ### Floats as integers times powers of two -/

namespace Binary

theorem ofFloat_of_unpack {x : Float} {s : Sign} {m : ℕ} {e : ℤ} {h : 0 < m}
    (hx : x.toModel.unpack = .finite s m e h) : ofFloat x = ⟨s == .negative, m, e⟩ := by
  let bits : BitVec Format.binary64.numBits := x.toModel.toBits.toBitVec
  have hexponent := toNat_unpackExponent bits
  have hmantissa := toNat_unpackMantissa bits
  have hsign := toNat_unpackSign bits
  change UnpackedFloat.unpack Format.binary64 bits = .finite s m e h at hx
  have hparts : ofFloat x =
      if (unpackExponent bits).toNat = 0 then
        ⟨(unpackSign bits).toNat == 1, (unpackMantissa bits).toNat, -1074⟩
      else ⟨(unpackSign bits).toNat == 1, Nat.pow 2 52 + (unpackMantissa bits).toNat,
        ((unpackExponent bits).toNat : ℤ) - 1075⟩ := by
    rw [hexponent, hmantissa, hsign, ofFloat]
    simp only [beq_iff_eq]
    rfl
  have hnegative : ((unpackSign bits).toNat == 1) =
      (Sign.ofBitVec (unpackSign bits) == .negative) := by
    generalize unpackSign bits = b
    have hb : ∀ b : BitVec 1, (b.toNat == 1) = (Sign.ofBitVec b == .negative) := by decide
    exact hb b
  rw [hparts, hnegative]
  rw [UnpackedFloat.unpack] at hx
  dsimp only at hx
  split at hx
  · split at hx <;> cases hx
  · split at hx
    · rename_i hzero
      have hnat : (unpackExponent bits).toNat = 0 := by rw [hzero]; rfl
      rw [if_pos hnat]
      split at hx
      · cases hx
      · rw [UnpackedFloat.finite.injEq] at hx
        obtain ⟨hs, hm, he⟩ := hx
        rw [hs, hm, ← he, hnat]
        rfl
    · rename_i hzero
      have hnat : (unpackExponent bits).toNat ≠ 0 := fun h => hzero (BitVec.eq_of_toNat_eq h)
      rw [if_neg hnat]
      rw [UnpackedFloat.finite.injEq, toNat_one_append] at hx
      obtain ⟨hs, hm, he⟩ := hx
      rw [hs, ← hm, ← he]
      rfl

/-- A finite float has 53 binary digits, or is below all that have. -/
theorem ofFloat_bounds {x : Float} (h : isFinite x = true) :
    (ofFloat x).significand < 2 ^ 52 ∧ (ofFloat x).exponent = -1074 ∨
      2 ^ 52 ≤ (ofFloat x).significand ∧ (ofFloat x).significand < 2 ^ 53 ∧
        -1074 ≤ (ofFloat x).exponent ∧ (ofFloat x).exponent ≤ 971 := by
  rw [isFinite, bne_iff_ne, Nat.pow_eq, Nat.pow_eq] at h
  simp only [ofFloat, beq_iff_eq, Nat.pow_eq]
  split
  · exact .inl ⟨Nat.mod_lt _ (by positivity), rfl⟩
  · have hfield : x.toBits.toNat / 2 ^ 52 % 2 ^ 11 < 2 ^ 11 := Nat.mod_lt _ (by positivity)
    have hfraction : x.toBits.toNat % 2 ^ 52 < 2 ^ 52 := Nat.mod_lt _ (by positivity)
    right
    refine ⟨?_, ?_, ?_, ?_⟩ <;> dsimp only <;> omega

theorem unpack_neg {x : Float} {s : Sign} {m : ℕ} {e : ℤ} {h : 0 < m}
    (hx : x.toModel.unpack = .finite s m e h) (hlow : 2 ^ 52 ≤ m) (hhigh : m < 2 ^ 53)
    (he : -1074 ≤ e) (he' : e ≤ 971) : (-x).toModel.unpack = .finite (-s) m e h := by
  show UnpackedFloat.unpack Format.binary64
    (UnpackedFloat.pack Format.binary64 x.toModel.unpack.neg) = _
  rw [hx, UnpackedFloat.neg]
  exact unpack_pack hlow hhigh he he'

/-- A scaled natural with a sign, as an exact value. -/
theorem ofFloat_floatOfScaled (negative : Bool) {m : ℕ} (h : 0 < m) (hm : m < 2 ^ 53) {q : ℤ}
    (hq : -1022 ≤ q) (hq' : q ≤ 971) (hsum : -1074 + padding m ≤ q) :
    ofFloat (if negative then -floatOfScaled m q else floatOfScaled m q) =
      ⟨negative, m * 2 ^ padding m, q - padding m⟩ := by
  obtain ⟨hlow, hhigh⟩ := padded_bounds h hm
  obtain ⟨hpos, hunpack⟩ := unpack_floatOfScaled h hm hq hq' hsum
  cases negative with
  | false => exact ofFloat_of_unpack hunpack
  | true => exact ofFloat_of_unpack (unpack_neg hunpack hlow hhigh (by omega) (by omega))

theorem ofFloat_floatOfScaled_zero (negative : Bool) {q : ℤ} (hq : -1022 ≤ q) (hq' : q ≤ 971) :
    ofFloat (if negative then -floatOfScaled 0 q else floatOfScaled 0 q) =
      ⟨negative, 0, -1074⟩ := by
  have hzero : floatOfScaled 0 q = 0.0 := by
    have hpower := unpack_ofBits_power (n := (q + 1023).toNat) (by omega) (by omega)
    have hnatural : (UInt64.ofNat 0).toFloat.toModel.unpack = .zero .positive := rfl
    show Float.ofModel (Float.Model.pack (UnpackedFloat.mul Format.binary64
      (UInt64.ofNat 0).toFloat.toModel.unpack
      (Float.ofBits (UInt64.ofNat ((q + 1023).toNat * Nat.pow 2 52))).toModel.unpack)) = _
    rw [hnatural, hpower]
    rfl
  rw [hzero]
  cases negative <;> decide +kernel

end Binary

/-! ### Rounding to single precision -/

theorem roundQuotient_mul (n : ℕ) {d : ℕ} (hd : 0 < d) : roundQuotient (n * d) d = n := by
  rw [roundQuotient]
  simp [Nat.mul_div_cancel _ hd, hd]

namespace Binary

/-- **A number of 24 binary digits is not changed by rounding:** it is found on the grid of its last
digit. -/
theorem toSingle_padded (negative : Bool) {m : ℕ} (h : 0 < m) (hm : m < 2 ^ 24) {q : ℤ}
    (hgrid : max (q - padding m + 29) (-149) = q) :
    toSingle ⟨negative, m * 2 ^ padding m, q - padding m⟩ =
      .atPlace negative (min ((q + 149).toNat * 2 ^ 23 + m) (255 * 2 ^ 23)) := by
  obtain ⟨hlow, hhigh⟩ := padded_bounds h (by omega)
  have hlog : m.log2 < 24 := (Nat.log2_lt h.ne').mpr hm
  have hpadding : padding m = 52 - m.log2 := rfl
  have hwidth : width ⟨negative, m * 2 ^ padding m, q - padding m⟩ = 53 := by
    rw [width, if_neg (by show m * 2 ^ padding m ≠ 0; omega), log2_eq hlow hhigh]
  have hgrid' : max (q - padding m + (53 : ℕ) - 24) (-149) = q := by omega
  have hshift : (q - (q - padding m)).toNat = padding m := by omega
  have hcoarse : ¬ q ≤ q - padding m := by omega
  rw [toSingle]
  simp only [hwidth, hgrid', Nat.pow_eq]
  rw [if_neg hcoarse, hshift, roundQuotient_mul m (Nat.two_pow_pos _), if_neg h.ne']

/-- The exponent tells which floats are finite. -/
theorem isFinite_iff {x : Float} : isFinite x = true ↔ (ofFloat x).exponent < 972 := by
  rw [isFinite, bne_iff_ne, Nat.pow_eq, Nat.pow_eq]
  simp only [ofFloat, beq_iff_eq, Nat.pow_eq]
  split
  · rename_i hzero
    rw [hzero]
    exact iff_of_true (by decide) (show (-1074 : ℤ) < 972 by decide)
  · have hfield : x.toBits.toNat / 2 ^ 52 % 2 ^ 11 < 2 ^ 11 := Nat.mod_lt _ (by positivity)
    dsimp only
    omega

end Binary

namespace Single

variable {s : Single}

/-- The place of a value among those of its sign, counted from zero up. -/
def place (s : Single) : ℕ :=
  s.exponent.toNat * 2 ^ 23 + s.fraction.toNat

/-- **A value is found at its place.** -/
theorem atPlace_place (s : Single) : atPlace s.negative s.place = s := by
  obtain ⟨negative, exponent, fraction⟩ := s
  have hexponent := exponent.isLt
  have hfraction := fraction.isLt
  rw [atPlace, place, mk.injEq]
  refine ⟨rfl, BitVec.eq_of_toNat_eq ?_, BitVec.eq_of_toNat_eq ?_⟩
  · rw [BitVec.toNat_ofNat, Nat.pow_eq]
    dsimp only
    omega
  · rw [BitVec.toNat_ofNat]
    dsimp only
    omega

/-- A finite value has 24 binary digits, or lies on the finest grid. Its place is that of its
significand on top of its grid. -/
theorem exact_bounds (h : s.isFinite = true) :
    s.exact.significand < 2 ^ 24 ∧ -149 ≤ s.exact.exponent ∧ s.exact.exponent ≤ 104 ∧
      (2 ^ 23 ≤ s.exact.significand ∨ s.exact.exponent = -149) ∧
      s.place = (s.exact.exponent + 149).toNat * 2 ^ 23 + s.exact.significand := by
  have hexponent := s.exponent.isLt
  have hfraction := s.fraction.isLt
  rw [isFinite, bne_iff_ne] at h
  rw [exact, place, Nat.pow_eq]
  simp only [beq_iff_eq]
  split
  · dsimp only
    omega
  · dsimp only
    omega

theorem value_of_isFinite (h : s.isFinite = true) :
    s.value =
      if s.negative then -floatOfScaled s.exact.significand s.exact.exponent
      else floatOfScaled s.exact.significand s.exact.exponent := by
  rw [value, if_pos h]

/-- The float is written with the digits of the value, and zeros behind them. -/
theorem ofFloat_value_of_pos (h : s.isFinite = true) (hpos : 0 < s.exact.significand) :
    Binary.ofFloat s.value =
      ⟨s.negative, s.exact.significand * 2 ^ padding s.exact.significand,
        s.exact.exponent - padding s.exact.significand⟩ := by
  obtain ⟨hm, hq, hq', -, -⟩ := exact_bounds h
  have hpadding : padding s.exact.significand ≤ 52 := Nat.sub_le ..
  rw [value_of_isFinite h]
  exact Binary.ofFloat_floatOfScaled s.negative hpos (by omega) (by omega) (by omega) (by omega)

theorem ofFloat_value_of_zero (h : s.isFinite = true) (hzero : s.exact.significand = 0) :
    Binary.ofFloat s.value = ⟨s.negative, 0, -1074⟩ := by
  obtain ⟨-, hq, hq', -, -⟩ := exact_bounds h
  rw [value_of_isFinite h, hzero]
  exact Binary.ofFloat_floatOfScaled_zero s.negative (by omega) (by omega)

/-- The float is finite just if the value is. -/
theorem isFinite_value (s : Single) : RegionPolicy.isFinite s.value = s.isFinite := by
  cases h : s.isFinite with
  | true =>
    obtain ⟨-, -, hq', -, -⟩ := exact_bounds h
    rw [Binary.isFinite_iff]
    rcases Nat.eq_zero_or_pos s.exact.significand with hzero | hpos
    · rw [ofFloat_value_of_zero h hzero]
      show (-1074 : ℤ) < 972
      decide
    · rw [ofFloat_value_of_pos h hpos]
      dsimp only
      omega
  | false =>
    have hspecial : ∀ negative zero : Bool, RegionPolicy.isFinite
        (if negative then
          -(if zero then Float.ofBits 0x7FF0000000000000 else Float.ofBits 0x7FF8000000000000)
        else if zero then Float.ofBits 0x7FF0000000000000
          else Float.ofBits 0x7FF8000000000000) = false := by
      decide +kernel
    rw [value, h]
    exact hspecial s.negative (s.fraction.toNat == 0)

/-- **Rounding leaves the values of single precision alone.** -/
theorem ofFloat_value (h : s.isFinite = true) : ofFloat s.value = s := by
  obtain ⟨hm, hq, hq', hdigits, hplace⟩ := exact_bounds h
  rw [ofFloat, if_pos ((isFinite_value s).trans h)]
  rcases Nat.eq_zero_or_pos s.exact.significand with hzero | hpos
  · have hnowhere : s.place = 0 := by omega
    have hrounded : ∀ negative : Bool,
        Binary.toSingle ⟨negative, 0, -1074⟩ = atPlace negative 0 := by
      decide +kernel
    rw [ofFloat_value_of_zero h hzero, hrounded, ← hnowhere, atPlace_place]
  · have hlog : 2 ^ 23 ≤ s.exact.significand → 23 ≤ s.exact.significand.log2 :=
      (Nat.le_log2 hpos.ne').mpr
    have hlog' : s.exact.significand.log2 < 24 := (Nat.log2_lt hpos.ne').mpr hm
    have hgrid : max (s.exact.exponent - padding s.exact.significand + 29) (-149) =
        s.exact.exponent := by
      rw [padding]
      omega
    rw [ofFloat_value_of_pos h hpos, Binary.toSingle_padded s.negative hpos hm hgrid, ← hplace,
      min_eq_left (by omega), atPlace_place]

end Single

end RegionPolicy
