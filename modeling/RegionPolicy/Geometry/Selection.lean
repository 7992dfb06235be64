import RegionPolicy.Geometry.Shape

/-!
# Selections

A shape is picked by its nodes. In cuboid mode the nodes span the least box around them; in
polygon mode they are the ring of a prism that reaches from the lowest node to the highest.

## Main definitions

* `SelectionMode`, `SelectionError`.
* `verticalRange` — the lowest and the highest altitude of some nodes.
* `SelectionMode.shapeOf` — the shape of some nodes.
-/

namespace RegionPolicy

/-- How picked nodes are understood. -/
inductive SelectionMode where
  | cuboid
  | polygon
deriving DecidableEq, Repr

/-- Why some nodes have no shape. -/
inductive SelectionError where
  | notEnoughPoints (mode : SelectionMode) (required actual : Nat)
  | mixedWorlds (first other : String)
deriving DecidableEq, Repr

namespace SelectionMode

/-- The modes in their order. -/
def all : List SelectionMode := [.cuboid, .polygon]

/-- The name by which a mode is stored. -/
def name : SelectionMode → String
  | cuboid => "CUBOID"
  | polygon => "POLYGON"

/-- The name by which a mode is shown. -/
def title : SelectionMode → String
  | cuboid => "Cuboid"
  | polygon => "Polygon"

/-- The fewest nodes that make a shape. -/
def minimumPoints : SelectionMode → Nat
  | cuboid => 2
  | polygon => 3

/-- The mode after this one; the first follows the last. -/
def next : SelectionMode → SelectionMode
  | cuboid => polygon
  | polygon => cuboid

/-- The mode in which a shape is edited: everything but a cuboid is edited as a polygon. -/
def ofShape : Shape → SelectionMode
  | .cuboid _ => cuboid
  | _ => polygon

/-- Reads a mode by its name. -/
def decode : Json.Decoder SelectionMode :=
  Json.Decoder.choice (all.map fun mode => (mode.name, mode))

end SelectionMode

/-- The report of a selection that has no shape. -/
def SelectionError.message : SelectionError → String
  | notEnoughPoints mode required actual =>
    mode.title ++ " selection needs at least " ++ toString required ++ " points, got " ++
      toString actual
  | mixedWorlds first other =>
    "selection points span several worlds (" ++ first ++ " and " ++ other ++ ")"

/-- The lowest and the highest altitude of some nodes; both are zero if there are none. -/
def verticalRange : List Position → Float × Float
  | [] => (0, 0)
  | p :: rest =>
    (rest.foldl (fun low node => lesser low node.y) p.y,
      rest.foldl (fun high node => greater high node.y) p.y)

/-- The least box around some nodes of a world, between two altitudes. -/
def boundingCuboid (first : Position) (nodes : List Position) (minY maxY : Float) : Cuboid where
  corner1 :=
    ⟨first.world, nodes.foldl (fun low node => lesser low node.x) first.x, minY,
      nodes.foldl (fun low node => lesser low node.z) first.z⟩
  corner2 :=
    ⟨first.world, nodes.foldl (fun high node => greater high node.x) first.x, maxY,
      nodes.foldl (fun high node => greater high node.z) first.z⟩

namespace SelectionMode

/-- The shape of some nodes. They have to be enough for the mode, and in one world. The altitudes
are those of `range`, or else those of the lowest and the highest node. -/
def shapeOf (mode : SelectionMode) (nodes : List Position) (range : Option (Float × Float)) :
    Except SelectionError Shape :=
  match nodes with
  | [] => .error (.notEnoughPoints mode mode.minimumPoints 0)
  | first :: _ =>
    if nodes.length < mode.minimumPoints then
      .error (.notEnoughPoints mode mode.minimumPoints nodes.length)
    else
      match nodes.find? fun node => node.world != first.world with
      | some other => .error (.mixedWorlds first.world other.world)
      | none =>
        let (minY, maxY) := range.getD (verticalRange nodes)
        match mode with
        | cuboid => .ok (.cuboid (boundingCuboid first nodes minY maxY))
        | polygon =>
          .ok (.polygonPrism ⟨minY, maxY, nodes.map fun node =>
            ⟨first.world, node.x, minY, node.z⟩⟩)

end SelectionMode

end RegionPolicy
