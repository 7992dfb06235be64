/-!
# Floats as integers times powers of two

A finite float is exactly `± m * 2 ^ q` with naturals and integers for `m` and `q`. All exact
work on numbers (choosing digits, rounding to places, rounding to single precision) is done on
that form, in integer arithmetic.

## Main definitions

* `Binary` — a sign, a significand and a binary exponent.
* `Binary.ofFloat` — the exact value of a finite float.
* `roundQuotient` — a quotient of naturals rounded to the nearest, ties to even.
-/

namespace RegionPolicy

/-- The exact number `± significand * 2 ^ exponent`. -/
structure Binary where
  /-- Whether the sign is negative. -/
  negative : Bool
  /-- The significand. -/
  significand : Nat
  /-- The power of two. -/
  exponent : Int
deriving DecidableEq, Repr

namespace Binary

/-- The exact value of a float. Infinities and NaN have none; test for them first. -/
def ofFloat (x : Float) : Binary :=
  let bits : Nat := x.toBits.toNat
  let field : Nat := bits / Nat.pow 2 52 % Nat.pow 2 11
  let fraction : Nat := bits % Nat.pow 2 52
  let negative := bits / Nat.pow 2 63 == 1
  if field == 0 then ⟨negative, fraction, -1074⟩
  else ⟨negative, Nat.pow 2 52 + fraction, (field : Int) - 1075⟩

/-- The exact value of an integer. -/
def ofInt (i : Int) : Binary :=
  ⟨i < 0, i.natAbs, 0⟩

/-- The number of binary digits of the significand. -/
def width (b : Binary) : Nat :=
  if b.significand = 0 then 0 else b.significand.log2 + 1

end Binary

/-- Whether the float is neither infinite nor NaN. -/
def isFinite (x : Float) : Bool :=
  x.toBits.toNat / Nat.pow 2 52 % Nat.pow 2 11 != 2047

/-- `n / d` rounded to the nearest natural, halves to the even neighbour. -/
def roundQuotient (n d : Nat) : Nat :=
  let q := n / d
  let r := n % d
  if 2 * r < d then q
  else if d < 2 * r then q + 1
  else if q % 2 == 0 then q else q + 1

/-- The float `m * 2 ^ q`, for a significand of at most 53 binary digits and an exponent between
-1022 and 1023. Both factors are exact, so the product is rounded once at most. -/
def floatOfScaled (m : Nat) (q : Int) : Float :=
  (UInt64.ofNat m).toFloat * Float.ofBits (UInt64.ofNat ((q + 1023).toNat * Nat.pow 2 52))

end RegionPolicy
