import RegionPolicy.Json.Fields

/-!
# Positions

A point in a named world. The horizontal plane is spanned by `x` and `z`; `y` is the altitude.

## Main definitions

* `Position`, `Position.origin`.
* `Position.toJson`, `Position.decode` — the written form.
* `lesser`, `greater` — the lesser and the greater of two coordinates.
-/

namespace RegionPolicy

/-- A point in a named world. -/
structure Position where
  /-- The name of the world. -/
  world : String
  /-- The first horizontal coordinate. -/
  x : Float
  /-- The altitude. -/
  y : Float
  /-- The second horizontal coordinate. -/
  z : Float
deriving DecidableEq

namespace Position

/-- The point that stands for "nowhere": no world, all coordinates zero. -/
def origin : Position := ⟨"", 0, 0, 0⟩

instance : Inhabited Position := ⟨origin⟩

/-- The point at another altitude. -/
def withY (p : Position) (y : Float) : Position := { p with y }

/-- The written form of a position. -/
def toJson (p : Position) : Json.Value :=
  .object
    [("world", .text p.world), ("x", .ofFloat p.x), ("y", .ofFloat p.y), ("z", .ofFloat p.z)]

/-- The fields of a position; all have to be there. -/
def fields : Json.Fields Position :=
  Position.mk <$> .required "world" Json.Decoder.text
    <*> .required "x" Json.Decoder.float
    <*> .required "y" Json.Decoder.float
    <*> .required "z" Json.Decoder.float

/-- Reads a position. -/
def decode : Json.Decoder Position := fields.decode

end Position

/-- The lesser of two coordinates; of two that compare equal, the second. Beside a number NaN does
not count. -/
def lesser (a b : Float) : Float := if a < b || b.isNaN then a else b

/-- The greater of two coordinates; of two that compare equal, the second. Beside a number NaN does
not count. -/
def greater (a b : Float) : Float := if b < a || b.isNaN then a else b

end RegionPolicy
