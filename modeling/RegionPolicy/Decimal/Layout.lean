import RegionPolicy.Decimal.Shortest

/-!
# Writing numbers

A number is written either with the fewest digits that identify it, in a layout that a record
decides, or with a fixed number of places.

## Main definitions

* `NumberLayout` — where positional notation begins and ends.
* `NumberLayout.render` — a finite float in that layout, always with a point or an exponent.
* `renderFixed` — a finite float with a fixed number of places, halves of the exact value to even.
-/

namespace RegionPolicy

/-- The decisions of a number format. Positional numbers always have a digit behind the point;
the others have a signed exponent of as few digits as it takes. -/
structure NumberLayout where
  /-- The least exponent of the leading digit that is written positionally. -/
  plainFrom : Int
  /-- The exponent of the leading digit from which on positional notation is not used. -/
  plainBelow : Int

namespace NumberLayout

/-- A positive decimal in positional notation. -/
def positional (d : Digits) : List Char :=
  if d.point ≤ 0 then
    '0' :: '.' :: List.replicate (-d.point).toNat '0' ++ d.digits
  else if d.digits.length ≤ d.point.toNat then
    d.digits ++ List.replicate (d.point.toNat - d.digits.length) '0' ++ ['.', '0']
  else
    d.digits.take d.point.toNat ++ '.' :: d.digits.drop d.point.toNat

/-- A positive decimal with an exponent. -/
def scientific (d : Digits) : List Char :=
  let e := d.point - 1
  let mantissa := match d.digits with
    | [] => []
    | [c] => [c]
    | c :: rest => c :: '.' :: rest
  mantissa ++ 'e' :: (if e < 0 then '-' else '+') :: Nat.toDigits 10 e.natAbs

/-- The characters of a finite float. -/
def renderChars (layout : NumberLayout) (x : Float) : List Char :=
  let b := Binary.ofFloat x
  let magnitude :=
    if b.significand = 0 then ['0', '.', '0']
    else
      let d := b.shortest
      if layout.plainFrom ≤ d.point - 1 && d.point - 1 < layout.plainBelow then positional d
      else scientific d
  if b.negative then '-' :: magnitude else magnitude

/-- The text of a finite float. -/
def render (layout : NumberLayout) (x : Float) : String :=
  String.ofList (layout.renderChars x)

end NumberLayout

/-- The characters of a finite float with the given number of places, at least one. -/
def renderFixed (places : Nat) (x : Float) : List Char :=
  let b := Binary.ofFloat x
  let units :=
    roundQuotient (b.significand * Nat.pow 2 b.exponent.toNat * Nat.pow 10 places)
      (Nat.pow 2 (-b.exponent).toNat)
  let all := Nat.toDigits 10 units
  let padded := List.replicate (places + 1 - all.length) '0' ++ all
  let whole := padded.length - places
  let magnitude := padded.take whole ++ '.' :: padded.drop whole
  if b.negative then '-' :: magnitude else magnitude

end RegionPolicy
