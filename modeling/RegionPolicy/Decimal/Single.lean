import RegionPolicy.Decimal.Binary

/-!
# Single precision

Volumes and pitches are kept in single precision: a sign, eight digits of the exponent, and a
significand of 24 binary digits, the first of which is not written down. A value is made of these
digits, so there is none that single precision cannot hold.

The digits of the exponent in front of those of the significand count the values of one sign from
zero up. So a significand is rounded and then put on top of its grid: where rounding has given one
more digit, the carry goes into the exponent, and what is too large ends at infinity.

## Main definitions

* `Single` — a value of single precision; `Single.value` — the float that it is equal to.
* `Binary.toSingle` — an exact number rounded to single precision, halves to even.
* `Single.ofFloat`, `Single.ofInt` — floats and integers rounded to single precision.
-/

namespace RegionPolicy

/-- A value of single precision. -/
structure Single where
  /-- Whether the sign is negative. -/
  negative : Bool
  /-- The digits of the exponent. -/
  exponent : BitVec 8
  /-- The digits of the significand that are written down. -/
  fraction : BitVec 23
deriving DecidableEq

namespace Single

/-- Whether the value is neither infinite nor NaN. -/
def isFinite (s : Single) : Bool := s.exponent.toNat != 255

/-- The exact value. Infinities and NaN have none; test for them first. -/
def exact (s : Single) : Binary :=
  if s.exponent.toNat == 0 then ⟨s.negative, s.fraction.toNat, -149⟩
  else ⟨s.negative, Nat.pow 2 23 + s.fraction.toNat, (s.exponent.toNat : Int) - 150⟩

/-- The float that is equal to the value. -/
def value (s : Single) : Float :=
  let magnitude :=
    if s.isFinite then floatOfScaled s.exact.significand s.exact.exponent
    else if s.fraction.toNat == 0 then Float.ofBits 0x7FF0000000000000
    else Float.ofBits 0x7FF8000000000000
  if s.negative then -magnitude else magnitude

/-- The value of a sign at a place, counted from zero up. Infinity comes next to the greatest finite
value, at `255 * 2 ^ 23`. -/
def atPlace (negative : Bool) (place : Nat) : Single :=
  ⟨negative, BitVec.ofNat 8 (place / Nat.pow 2 23), BitVec.ofNat 23 place⟩

end Single

/-- The number rounded to the nearest value of single precision, halves to even. -/
def Binary.toSingle (b : Binary) : Single :=
  -- the exponent of the last of 24 digits, on a grid that is not finer than the finest
  let grid := max (b.exponent + b.width - 24) (-149)
  let m :=
    if grid ≤ b.exponent then b.significand * Nat.pow 2 (b.exponent - grid).toNat
    else roundQuotient b.significand (Nat.pow 2 (grid - b.exponent).toNat)
  if m = 0 then .atPlace b.negative 0
  else .atPlace b.negative (min ((grid + 149).toNat * Nat.pow 2 23 + m) (255 * Nat.pow 2 23))

namespace Single

/-- The float rounded to single precision. -/
def ofFloat (x : Float) : Single :=
  if RegionPolicy.isFinite x then (Binary.ofFloat x).toSingle
  else .atPlace (Binary.ofFloat x).negative (255 * Nat.pow 2 23 + if x.isNaN then Nat.pow 2 22 else 0)

/-- The integer rounded to single precision. -/
def ofInt (i : Int) : Single := (Binary.ofInt i).toSingle

/-- The value one. -/
def one : Single := ofInt 1

end Single

end RegionPolicy
