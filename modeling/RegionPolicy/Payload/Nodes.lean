import RegionPolicy.Geometry.Selection

/-!
# Shapes as nodes

Geometry is stored as the nodes from which a selection makes it again. The vertical extent goes
into the nodes as well: they lie on the floor, but for the last one, which is raised to the
ceiling. A cylinder is stored as a polygon along its rim.

## Main definitions

* `Shape.nodes` — the nodes of a shape.
-/

namespace RegionPolicy

/-- The nodes with the last one raised to the given altitude. -/
def raiseLast (y : Float) : List Position → List Position
  | [] => []
  | [p] => [p.withY y]
  | p :: rest => p :: raiseLast y rest

namespace Cylinder

/-- How many points stand for a rim. -/
def rimSize : Nat := 16

/-- Half the circumference of the unit circle. -/
def pi : Float := 3.141592653589793

/-- A point of the rim, at the floor. -/
def rimPoint (s : Cylinder) (step : Nat) : Position :=
  let angle := 2 * pi * Float.ofNat step / Float.ofNat rimSize
  ⟨s.center.world, s.center.x + s.radius * Float.cos angle, s.minY,
    s.center.z + s.radius * Float.sin angle⟩

/-- Points along the rim, at the floor. -/
def rim (s : Cylinder) : List Position :=
  (List.range rimSize).map s.rimPoint

end Cylinder

/-- The nodes of a shape; a world-wide shape has none. -/
def Shape.nodes : Shape → List Position
  | cuboid s => [s.minCorner, s.maxCorner]
  | polygonPrism s => raiseLast s.maxY (s.vertices.map fun v => v.withY s.minY)
  | flatPolygon s => s.vertices.map fun v => v.withY s.y
  | cylinder s => raiseLast s.maxY s.rim
  | world _ => []

end RegionPolicy
