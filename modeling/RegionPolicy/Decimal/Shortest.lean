import RegionPolicy.Decimal.Binary

/-!
# The fewest digits that identify a float

Among all decimals that lie closer to a float than to its neighbours there is one with the
fewest digits. It is found by trying grids of one digit, two digits and so on: if any decimal of
a grid lies in the interval around the value, one of the two grid points next to the value does.

## Main definitions

* `Digits` — a decimal as a row of digits and the place of its point.
* `Binary.identifies` — whether a decimal lies among the reals that round to the value.
* `Binary.shortest` — the shortest such decimal, the nearest to the value among those.
-/

namespace RegionPolicy

/-- The decimal `0.d₁d₂d₃… * 10 ^ point`. -/
structure Digits where
  /-- The digits, most significant first, without trailing zeros. -/
  digits : List Char
  /-- How many places the point stands to the right of the first digit's left side. -/
  point : Int
deriving DecidableEq, Repr

/-- The decimal `n * 10 ^ e`, for `n ≠ 0`. -/
def Digits.ofNat (n : Nat) (e : Int) : Digits :=
  let all := Nat.toDigits 10 n
  ⟨(all.reverse.dropWhile (· == '0')).reverse, all.length + e⟩

/-- Compares `n * 10 ^ e` with `m * 2 ^ q`, exactly. -/
def compareDecimal (n : Nat) (e : Int) (m : Nat) (q : Int) : Ordering :=
  compare (n * Nat.pow 10 e.toNat * Nat.pow 2 (-q).toNat)
    (m * Nat.pow 2 q.toNat * Nat.pow 10 (-e).toNat)

namespace Binary

/-- Whether the gap to the float below is half the gap to the float above: the significand is the
least of its exponent, and a smaller exponent exists. -/
def isNarrowBelow (b : Binary) : Bool :=
  b.significand == Nat.pow 2 52 && decide (-1074 < b.exponent)

/-- Whether `n * 10 ^ e` lies among the reals that round to `b`. The ends of that interval are
halfway to the neighbours, and belong to it exactly when the significand is even. -/
def identifies (b : Binary) (n : Nat) (e : Int) : Bool :=
  let low := if b.isNarrowBelow then 4 * b.significand - 1 else 4 * b.significand - 2
  let high := 4 * b.significand + 2
  let fromBelow := compareDecimal n e low (b.exponent - 2)
  let fromAbove := compareDecimal n e high (b.exponent - 2)
  let closed := b.significand % 2 == 0
  (fromBelow == .gt || (closed && fromBelow == .eq)) &&
    (fromAbove == .lt || (closed && fromAbove == .eq))

/-- The least `k` with `b < 10 ^ k`, for a significand other than zero. The binary width gives it
up to a step or two, which exact comparisons settle. -/
def decimalPoint (b : Binary) : Int :=
  let guess := ((b.width : Int) - 1 + b.exponent) * 30103 / 100000 - 1
  let exceeds (i : Int) : Bool :=
    compareDecimal 1 (guess + i) b.significand b.exponent == .gt
  match [0, 1, 2].find? exceeds with
  | some i => guess + i
  | none => guess + 3

/-- The integer part of `b / 10 ^ e`. -/
def floorDecimal (b : Binary) (e : Int) : Nat :=
  b.significand * Nat.pow 2 b.exponent.toNat * Nat.pow 10 (-e).toNat /
    (Nat.pow 10 e.toNat * Nat.pow 2 (-b.exponent).toNat)

/-- The nearer of the two neighbours of `b` on the grid `10 ^ e` that identify it; of two equally
near ones the even one. -/
def neighbour? (b : Binary) (e : Int) : Option Nat :=
  let n := b.floorDecimal e
  match b.identifies n e, b.identifies (n + 1) e with
  | true, true =>
    match compareDecimal (2 * n + 1) e (2 * b.significand) b.exponent with
    | .gt => some n
    | .lt => some (n + 1)
    | .eq => some (if n % 2 == 0 then n else n + 1)
  | true, false => some n
  | false, true => some (n + 1)
  | false, false => none

/-- The fewest digits that identify `b`, for a significand other than zero. Should seventeen not
do, all digits are given. -/
def shortest (b : Binary) : Digits :=
  let point := b.decimalPoint
  let found := (List.range 17).findSome? fun (i : Nat) =>
    let e : Int := point - 1 - i
    (b.neighbour? e).map fun n => Digits.ofNat n e
  found.getD
    (if b.exponent < 0 then
      Digits.ofNat (b.significand * Nat.pow 5 (-b.exponent).toNat) b.exponent
     else Digits.ofNat (b.significand * Nat.pow 2 b.exponent.toNat) 0)

end Binary

end RegionPolicy
