import RegionPolicy.Geometry.Selection

/-!
# Shapes as records

A record that holds any shape: the kind of shape and those of the fields that the kind needs. A
field that is missing has a fixed default. Geometry used to be stored in this form.

## Main definitions

* `ShapeKind`, `ShapeRecord`.
* `ShapeRecord.ofShape`, `ShapeRecord.toShape` — from shapes to records and back.
* `ShapeRecord.toJson`, `ShapeRecord.decode` — the written form.
-/

namespace RegionPolicy

/-- The kinds of shapes. -/
inductive ShapeKind where
  | cuboid
  | polygonPrism
  | cylinder
  | flatPolygon
  | world
deriving DecidableEq, Repr

namespace ShapeKind

/-- The kinds in their order. -/
def all : List ShapeKind := [cuboid, polygonPrism, cylinder, flatPolygon, world]

/-- The name by which a kind is stored. -/
def name : ShapeKind → String
  | cuboid => "CUBOID"
  | polygonPrism => "POLYGON_PRISM"
  | cylinder => "CYLINDER"
  | flatPolygon => "FLAT_POLYGON"
  | world => "GLOBAL"

/-- Reads a kind by its name. -/
def decode : Json.Decoder ShapeKind :=
  Json.Decoder.choice (all.map fun kind => (kind.name, kind))

end ShapeKind

/-- A record that holds any shape. -/
structure ShapeRecord where
  /-- The kind of shape. -/
  kind : ShapeKind := .cuboid
  /-- A corner of a cuboid. -/
  corner1 : Option Position := none
  /-- The opposite corner. -/
  corner2 : Option Position := none
  /-- The floor. -/
  minY : Option Float := none
  /-- The ceiling. -/
  maxY : Option Float := none
  /-- A ring. -/
  vertices : Option (List Position) := none
  /-- The center of a cylinder. -/
  center : Option Position := none
  /-- The radius of a cylinder. -/
  radius : Option Float := none
  /-- The altitude of a flat polygon. -/
  flatY : Option Float := none
  /-- The worlds of a world-wide shape. -/
  worlds : Option (List String) := none
deriving DecidableEq

namespace ShapeRecord

/-- The record of a shape: the fields of its kind and no others. -/
def ofShape : Shape → ShapeRecord
  | .cuboid s => { kind := .cuboid, corner1 := some s.corner1, corner2 := some s.corner2 }
  | .polygonPrism s =>
    { kind := .polygonPrism, minY := some s.minY, maxY := some s.maxY,
      vertices := some s.vertices }
  | .cylinder s =>
    { kind := .cylinder, center := some s.center, radius := some s.radius, minY := some s.minY,
      maxY := some s.maxY }
  | .flatPolygon s => { kind := .flatPolygon, flatY := some s.y, vertices := some s.vertices }
  | .world s =>
    { kind := .world, minY := some s.minY, maxY := some s.maxY, worlds := some s.worlds }

/-- The shape of a record. -/
def toShape (r : ShapeRecord) : Shape :=
  match r.kind with
  | .cuboid => .cuboid ⟨r.corner1.getD .origin, r.corner2.getD .origin⟩
  | .polygonPrism => .polygonPrism ⟨r.minY.getD 0, r.maxY.getD 255, r.vertices.getD []⟩
  | .cylinder => .cylinder ⟨r.center.getD .origin, r.radius.getD 5, r.minY.getD 0, r.maxY.getD 255⟩
  | .flatPolygon => .flatPolygon ⟨r.flatY.getD 64, r.vertices.getD []⟩
  | .world =>
    .world ⟨r.worlds.getD [], r.minY.getD WorldShape.defaultMinY,
      r.maxY.getD WorldShape.defaultMaxY⟩

/-- A field that is left out if it has no value. -/
def presentField {α : Type} (name : String) (f : α → Json.Value) :
    Option α → List (String × Json.Value)
  | some a => [(name, f a)]
  | none => []

/-- The written form of a record, without the fields that have no value. -/
def toJson (r : ShapeRecord) : Json.Value :=
  .object
    (("type", .text r.kind.name) ::
      (presentField "corner1" Position.toJson r.corner1 ++
        presentField "corner2" Position.toJson r.corner2 ++
        presentField "minY" .ofFloat r.minY ++
        presentField "maxY" .ofFloat r.maxY ++
        presentField "vertices" (.ofList Position.toJson) r.vertices ++
        presentField "center" Position.toJson r.center ++
        presentField "radius" .ofFloat r.radius ++
        presentField "flatY" .ofFloat r.flatY ++
        presentField "worlds" .texts r.worlds))

open Json in
/-- The fields of a record; none has to be there. -/
def fields : Json.Fields ShapeRecord :=
  ShapeRecord.mk <$> .optional "type" ShapeKind.decode .cuboid
    <*> .optional "corner1" (Decoder.option Position.decode) none
    <*> .optional "corner2" (Decoder.option Position.decode) none
    <*> .optional "minY" (Decoder.option Decoder.float) none
    <*> .optional "maxY" (Decoder.option Decoder.float) none
    <*> .optional "vertices" (Decoder.option (Decoder.list Position.decode)) none
    <*> .optional "center" (Decoder.option Position.decode) none
    <*> .optional "radius" (Decoder.option Decoder.float) none
    <*> .optional "flatY" (Decoder.option Decoder.float) none
    <*> .optional "worlds" (Decoder.option (Decoder.list Decoder.text)) none

/-- Reads a record. -/
def decode : Json.Decoder ShapeRecord := fields.decode

end ShapeRecord

end RegionPolicy
