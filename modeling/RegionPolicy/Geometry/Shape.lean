import RegionPolicy.Geometry.Position
import RegionPolicy.Text.Lowercase

/-!
# Shapes

The five shapes that a region can have, which points they contain, and the box around them.

Cuboids, cylinders and polygons look at coordinates only; a world-wide shape looks at the world
and the altitude only.

## Main definitions

* `Shape` with its variants `Cuboid`, `PolygonPrism`, `FlatPolygon`, `Cylinder`, `WorldShape`.
* `ringContains` — the even-odd rule: a point is inside a ring of vertices if a ray from it
  crosses an odd number of edges.
* `Shape.contains`, `Shape.minCorner`, `Shape.maxCorner`.
-/

namespace RegionPolicy

/-! ### Cuboids -/

/-- A box between two corners, faces included. -/
structure Cuboid where
  /-- A corner. -/
  corner1 : Position
  /-- The opposite corner. -/
  corner2 : Position
deriving DecidableEq

namespace Cuboid

/-- The corner with the least coordinates. -/
def minCorner (c : Cuboid) : Position :=
  ⟨c.corner1.world, lesser c.corner1.x c.corner2.x, lesser c.corner1.y c.corner2.y,
    lesser c.corner1.z c.corner2.z⟩

/-- The corner with the greatest coordinates. -/
def maxCorner (c : Cuboid) : Position :=
  ⟨c.corner1.world, greater c.corner1.x c.corner2.x, greater c.corner1.y c.corner2.y,
    greater c.corner1.z c.corner2.z⟩

/-- Whether every coordinate lies between those of the corners. -/
def contains (c : Cuboid) (p : Position) : Bool :=
  let low := c.minCorner
  let high := c.maxCorner
  low.x ≤ p.x && p.x ≤ high.x && low.y ≤ p.y && p.y ≤ high.y && low.z ≤ p.z && p.z ≤ high.z

end Cuboid

/-! ### Rings

A ring is a list of vertices seen from above. Its edges join each vertex to the one before it,
and the first to the last. -/

/-- Added to the rise of an edge, so that a level edge does not divide by zero. -/
def edgeEpsilon : Float := 1e-7

/-- The edges of a ring: each vertex with the one before it, the first with the last. -/
def ringEdges (vertices : List Position) : List (Position × Position) :=
  match vertices.getLast? with
  | some last => vertices.zip (last :: vertices)
  | none => []

/-- Whether the ray from `p` towards greater `x` crosses an edge. -/
def crosses (p : Position) (edge : Position × Position) : Bool :=
  let a := edge.1
  let b := edge.2
  (decide (p.z < a.z) != decide (p.z < b.z)) &&
    p.x < (b.x - a.x) * (p.z - a.z) / (b.z - a.z + edgeEpsilon) + a.x

/-- Whether the point lies inside the ring: a ray from it crosses an odd number of edges. Fewer
than three vertices enclose nothing. -/
def ringContains (vertices : List Position) (p : Position) : Bool :=
  3 ≤ vertices.length && (ringEdges vertices).countP (crosses p) % 2 == 1

/-- The least and the greatest horizontal coordinates of a ring. -/
structure Extent where
  /-- The world of the first vertex. -/
  world : String
  /-- The least `x`. -/
  minX : Float
  /-- The least `z`. -/
  minZ : Float
  /-- The greatest `x`. -/
  maxX : Float
  /-- The greatest `z`. -/
  maxZ : Float

/-- The extent widened to one more vertex. -/
def Extent.widen (e : Extent) (p : Position) : Extent :=
  { e with
    minX := lesser e.minX p.x, minZ := lesser e.minZ p.z,
    maxX := greater e.maxX p.x, maxZ := greater e.maxZ p.z }

/-- The extent of a ring; a ring without vertices has none. -/
def ringExtent? : List Position → Option Extent
  | [] => none
  | p :: rest => some (rest.foldl Extent.widen ⟨p.world, p.x, p.z, p.x, p.z⟩)

/-- The corner of a ring's box with the least coordinates, at the given altitude. -/
def ringMinCorner (vertices : List Position) (y : Float) : Position :=
  match ringExtent? vertices with
  | some e => ⟨e.world, e.minX, y, e.minZ⟩
  | none => .origin

/-- The corner of a ring's box with the greatest coordinates, at the given altitude. -/
def ringMaxCorner (vertices : List Position) (y : Float) : Position :=
  match ringExtent? vertices with
  | some e => ⟨e.world, e.maxX, y, e.maxZ⟩
  | none => .origin

/-! ### Polygons -/

/-- A ring between two altitudes. -/
structure PolygonPrism where
  /-- The floor. -/
  minY : Float
  /-- The ceiling. -/
  maxY : Float
  /-- The ring. -/
  vertices : List Position
deriving DecidableEq

/-- Whether the point is neither below the floor nor above the ceiling, and inside the ring. -/
def PolygonPrism.contains (s : PolygonPrism) (p : Position) : Bool :=
  !(p.y < s.minY || s.maxY < p.y) && ringContains s.vertices p

/-- A ring at one altitude. -/
structure FlatPolygon where
  /-- The altitude. -/
  y : Float
  /-- The ring. -/
  vertices : List Position
deriving DecidableEq

/-- Whether the point is at the altitude and inside the ring. -/
def FlatPolygon.contains (s : FlatPolygon) (p : Position) : Bool :=
  p.y == s.y && ringContains s.vertices p

/-! ### Cylinders -/

/-- An upright cylinder around a center. -/
structure Cylinder where
  /-- The center; its altitude does not matter. -/
  center : Position
  /-- The radius. -/
  radius : Float
  /-- The floor. -/
  minY : Float
  /-- The ceiling. -/
  maxY : Float
deriving DecidableEq

namespace Cylinder

/-- Whether the point is neither below the floor nor above the ceiling, and no farther from the
center than the radius. -/
def contains (s : Cylinder) (p : Position) : Bool :=
  let dx := p.x - s.center.x
  let dz := p.z - s.center.z
  !(p.y < s.minY || s.maxY < p.y) && dx * dx + dz * dz ≤ s.radius * s.radius

/-- The corner of the box around the cylinder with the least coordinates. -/
def minCorner (s : Cylinder) : Position :=
  ⟨s.center.world, s.center.x - s.radius, s.minY, s.center.z - s.radius⟩

/-- The corner of the box around the cylinder with the greatest coordinates. -/
def maxCorner (s : Cylinder) : Position :=
  ⟨s.center.world, s.center.x + s.radius, s.maxY, s.center.z + s.radius⟩

end Cylinder

/-! ### World-wide shapes -/

/-- Whole worlds between two altitudes. -/
structure WorldShape where
  /-- The names of the worlds. -/
  worlds : List String
  /-- The floor. -/
  minY : Float
  /-- The ceiling. -/
  maxY : Float
deriving DecidableEq

namespace WorldShape

/-- The horizontal coordinate at which a world ends. -/
def border : Float := 30000000

/-- The floor of a world where none is given. -/
def defaultMinY : Float := -64

/-- The ceiling of a world where none is given. -/
def defaultMaxY : Float := 320

/-- Whether the point is in one of the worlds, the case of their names aside, and between floor
and ceiling. -/
def contains (s : WorldShape) (p : Position) : Bool :=
  (s.worlds.map Text.lowercase).contains (Text.lowercase p.world) && s.minY ≤ p.y && p.y ≤ s.maxY

/-- The corner of the first world at the given altitude and horizontal coordinates. -/
def corner (s : WorldShape) (y coordinate : Float) : Position :=
  match s.worlds with
  | world :: _ => ⟨world, coordinate, y, coordinate⟩
  | [] => .origin

end WorldShape

/-! ### Shapes -/

/-- The shape of a region. -/
inductive Shape where
  | cuboid (s : Cuboid)
  | polygonPrism (s : PolygonPrism)
  | flatPolygon (s : FlatPolygon)
  | cylinder (s : Cylinder)
  | world (s : WorldShape)
deriving DecidableEq

/-- Whether a shape is a surface or a solid. -/
inductive Dimension where
  | two
  | three
deriving DecidableEq, Repr

namespace Shape

/-- The shape of a region without geometry: a single point, nowhere. -/
def empty : Shape := .cuboid ⟨.origin, .origin⟩

instance : Inhabited Shape := ⟨empty⟩

/-- Whether the shape contains the point. -/
def contains : Shape → Position → Bool
  | cuboid s, p => s.contains p
  | polygonPrism s, p => s.contains p
  | flatPolygon s, p => s.contains p
  | cylinder s, p => s.contains p
  | world s, p => s.contains p

/-- The corner of the box around the shape with the least coordinates. -/
def minCorner : Shape → Position
  | cuboid s => s.minCorner
  | polygonPrism s => ringMinCorner s.vertices s.minY
  | flatPolygon s => ringMinCorner s.vertices s.y
  | cylinder s => s.minCorner
  | world s => s.corner s.minY (-WorldShape.border)

/-- The corner of the box around the shape with the greatest coordinates. -/
def maxCorner : Shape → Position
  | cuboid s => s.maxCorner
  | polygonPrism s => ringMaxCorner s.vertices s.maxY
  | flatPolygon s => ringMaxCorner s.vertices s.y
  | cylinder s => s.maxCorner
  | world s => s.corner s.maxY WorldShape.border

/-- A ring at one altitude is a surface; every other shape is a solid. -/
def dimension : Shape → Dimension
  | flatPolygon _ => .two
  | _ => .three

/-- The name of the kind of shape. -/
def kindName : Shape → String
  | cuboid _ => "cuboid"
  | polygonPrism _ => "polygon_prism"
  | flatPolygon _ => "flat_polygon"
  | cylinder _ => "cylinder"
  | world _ => "global"

end Shape

end RegionPolicy
