import RegionPolicy.Decimal.Binary

/-!
# Reading numbers

A number's digits are gathered into a significand of 64 bits, and one multiplication or division
by a power of ten makes the float. Digits that no longer fit the significand are dropped: before
the point they still count towards the exponent, behind it they do not count at all. The result
is the nearest float for every number of up to fifteen digits; a longer one may be read as a
neighbour of the nearest float.

## Main definitions

* `Gathered` — a significand with a decimal exponent.
* `Gathered.ofDigits` — the digits before and behind the point.
* `Gathered.toFloat?` — the float, unless it is too large.
-/

namespace RegionPolicy

/-- The unsigned decimal `significand * 10 ^ exponent`. -/
structure Gathered where
  /-- The digits that were kept, below `2 ^ 64`. -/
  significand : Nat
  /-- The power of ten. -/
  exponent : Int
deriving DecidableEq, Repr

namespace Gathered

/-- Whether one more digit fits the significand. -/
def fits (significand digit : Nat) : Bool :=
  significand * 10 + digit < Nat.pow 2 64

/-- Appends the digits before the point; from the first that does not fit on, they only raise the
exponent. -/
def whole (significand : Nat) : List Nat → Gathered
  | [] => ⟨significand, 0⟩
  | d :: rest =>
    if fits significand d then whole (significand * 10 + d) rest
    else ⟨significand, rest.length + 1⟩

/-- Appends the digits behind the point; from the first that does not fit on, they are dropped. -/
def places (g : Gathered) : List Nat → Gathered
  | [] => g
  | d :: rest =>
    if fits g.significand d then places ⟨g.significand * 10 + d, g.exponent - 1⟩ rest else g

/-- The decimal with the given digits before and behind the point, and the given exponent. -/
def ofDigits (before behind : List Nat) (exponent : Int) : Gathered :=
  let g := places (whole 0 before) behind
  ⟨g.significand, g.exponent + exponent⟩

/-- The power of ten as a float, for an exponent of at most 308. -/
def powerOfTen (n : Nat) : Float :=
  Float.ofScientific 1 false n

/-- Divides by `10 ^ n`, by `10 ^ 308` at a time while the exponent is beyond that. -/
def divideByPower (f : Float) (n : Nat) : Float :=
  if n ≤ 308 then f / powerOfTen n
  else if f == 0 then f
  else divideByPower (f / powerOfTen 308) (n - 308)
termination_by n
decreasing_by omega

/-- The float of the decimal; nothing if it is beyond the largest float. -/
def toFloat? (g : Gathered) : Option Float :=
  let f := (UInt64.ofNat g.significand).toFloat
  if 0 ≤ g.exponent then
    if g.exponent ≤ 308 then
      let product := f * powerOfTen g.exponent.toNat
      if isFinite product then some product else none
    else if f == 0 then some f else none
  else some (divideByPower f (-g.exponent).toNat)

end Gathered

end RegionPolicy
