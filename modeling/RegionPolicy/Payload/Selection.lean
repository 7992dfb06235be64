import RegionPolicy.Payload.Nodes
import RegionPolicy.Payload.ShapeRecord
import RegionPolicy.Text.Blank

/-!
# Stored selections

The geometry of a region is stored as a selection: a mode and its nodes, from which the shape is
made again. Text that holds a shape record instead is read as well.

Reading is lenient: a mode of unknown name counts as cuboid, and nodes that make no shape give the
empty one, so that one bad payload does not cost a region.

## Main definitions

* `SelectionPayload` — what is stored, with `SelectionPayload.toJson`.
* `StoredGeometry` — a mode, its nodes and the shape.
* `StoredGeometry.parse` — the geometry of a stored text.
-/

namespace RegionPolicy

/-- A stored selection. -/
structure SelectionPayload where
  /-- The version of the format. -/
  version : UInt32
  /-- The name of the mode. -/
  mode : String
  /-- The nodes. -/
  nodes : List Position
deriving DecidableEq

namespace SelectionPayload

/-- The version that is written. -/
def currentVersion : UInt32 := 2

/-- A selection as it is written. -/
def ofSelection (mode : SelectionMode) (nodes : List Position) : SelectionPayload :=
  ⟨currentVersion, mode.name, nodes⟩

/-- The mode of a stored selection: surrounding blanks and the case of ASCII letters do not matter,
and a name that is none counts as cuboid. -/
def selectionMode (p : SelectionPayload) : SelectionMode :=
  let name := Text.lowercaseAscii (Text.trim p.mode)
  (SelectionMode.all.find? fun mode => Text.lowercaseAscii mode.name == name).getD .cuboid

/-- The written form of a stored selection. -/
def toJson (p : SelectionPayload) : Json.Value :=
  .object
    [("version", .ofNat p.version.toNat), ("mode", .text p.mode),
      ("nodes", .ofList Position.toJson p.nodes)]

open Json in
/-- The fields of a stored selection; the mode has to be there. -/
def fields : Json.Fields SelectionPayload :=
  SelectionPayload.mk <$> .optional "version" Decoder.uint32 currentVersion
    <*> .required "mode" Decoder.text
    <*> .optional "nodes" (Decoder.list Position.decode) []

/-- Reads a stored selection. -/
def decode : Json.Decoder SelectionPayload := fields.decode

end SelectionPayload

/-- A stored shape record, perhaps with nodes. -/
structure ShapePayload where
  /-- The record. -/
  shape : ShapeRecord
  /-- The nodes, if they are stored. -/
  nodes : Option (List Position)
deriving DecidableEq

namespace ShapePayload

open Json in
/-- The fields of a stored shape record; the record has to be there. -/
def fields : Json.Fields ShapePayload :=
  ShapePayload.mk <$> .required "shape" ShapeRecord.decode
    <*> .optional "nodes" (Decoder.option (Decoder.list Position.decode)) none

/-- Reads a stored shape record. -/
def decode : Json.Decoder ShapePayload := fields.decode

end ShapePayload

/-! ### Geometry from text -/

/-- Geometry as it comes from storage. -/
structure StoredGeometry where
  /-- The mode in which it is edited. -/
  mode : SelectionMode
  /-- The nodes. -/
  nodes : List Position
  /-- The shape. -/
  shape : Shape
deriving DecidableEq

/-- Why a stored text holds no geometry. -/
inductive PayloadError where
  /-- There is nothing but blanks. -/
  | empty
  /-- It is no well-formed text, or a field has the wrong form. -/
  | malformed
  /-- It is neither a selection nor a shape record. The beginning of the text is given. -/
  | unrecognized (beginning : String)
deriving DecidableEq, Repr

/-- The report of a text without geometry; malformed texts have none of their own. -/
def PayloadError.message? : PayloadError → Option String
  | empty => some "payload is empty"
  | malformed => none
  | unrecognized beginning =>
    some ("payload is neither a v2 nor a legacy region payload: " ++ beginning)

namespace StoredGeometry

/-- The geometry of a stored selection. -/
def ofSelection (p : SelectionPayload) : StoredGeometry :=
  let mode := p.selectionMode
  let shape := match mode.shapeOf p.nodes none with
    | .ok shape => shape
    | .error _ => .empty
  ⟨mode, p.nodes, shape⟩

/-- The geometry of a stored shape record. -/
def ofRecord (p : ShapePayload) : StoredGeometry :=
  let shape := p.shape.toShape
  ⟨.ofShape shape, p.nodes.getD shape.nodes, shape⟩

/-- How much of a text is reported that is not recognized. -/
def reportLimit : Nat := 80

/-- The geometry of a stored text. A text with a mode is a selection, one with a shape a record. -/
def parse (data : String) : Except PayloadError StoredGeometry :=
  if Text.isBlank data then .error .empty
  else
    match Json.parse? data with
    | none => .error .malformed
    | some value =>
      if (value.get? "mode").isSome then
        match Json.decodeValue SelectionPayload.decode value with
        | .ok p => .ok (ofSelection p)
        | .error _ => .error .malformed
      else if (value.get? "shape").isSome then
        match Json.decodeValue ShapePayload.decode value with
        | .ok p => .ok (ofRecord p)
        | .error _ => .error .malformed
      else .error (.unrecognized (String.ofList (data.toList.take reportLimit)))

end StoredGeometry

end RegionPolicy
