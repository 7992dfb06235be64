import RegionPolicy.Payload.Nodes
import RegionPolicy.Proofs.FloatOrder

/-!
# Shapes made again from their nodes

The nodes of a cuboid are two of its corners, and those of a polygon are its ring with the vertical
extent in the altitudes. The shape that a selection makes from them is the same shape up to the
choice of corners, the altitudes of a ring, and the spelling of zero. A shape that came out of a
selection has already the form in which it is made again, so it is made again exactly.

## Main definitions

* `SeenAs` — nodes that stand above or below the vertices of a ring.
* `Shape.Rebuildable` — the shapes that a selection can make again from their nodes.
* `Shape.Settled` — the form that a shape has when it comes out of a selection.
* `Shape.SameExtent` — shapes that contain the same points and reach from the same lowest to the
  same highest altitude.

## Main results

* `bounds_foldl` — folding `lesser` and `greater` gives the least and the greatest.
* `verticalRange_raiseLast` — the raised node carries the vertical extent.
* `settled_of_shapeOf` — what comes out of a selection is settled.
* `Cuboid.shapeOf_nodes`, `PolygonPrism.shapeOf_nodes`, `FlatPolygon.shapeOf_nodes` — what the
  selection makes of the nodes.
* `Shape.exists_rebuilt` — it has the same extent, and is the same shape if that came out of a
  selection.
-/

namespace RegionPolicy

/-! ### Least and greatest coordinates -/

/-- Nothing changes where all nodes are at one altitude. -/
theorem foldl_level {f : Float → Float → Float} (hf : ∀ x, f x x = x) {y : Float}
    {nodes : List Position} (h : ∀ node ∈ nodes, node.y = y) :
    nodes.foldl (fun x node => f x node.y) y = y := by
  induction nodes with
  | nil => rfl
  | cons node rest ih =>
    rw [List.foldl_cons, h node List.mem_cons_self, hf]
    exact ih fun other hother => h other (List.mem_cons_of_mem node hother)

/-- The least and the greatest value that some nodes have in a coordinate. -/
theorem spans_foldl (coordinate : Position → Float) (nodes : List Position) {low high : Float}
    (h : Spans low high) :
    Spans (nodes.foldl (fun low node => lesser low (coordinate node)) low)
      (nodes.foldl (fun high node => greater high (coordinate node)) high) := by
  induction nodes generalizing low high with
  | nil => exact h
  | cons node rest ih => exact ih (h.widen (coordinate node))

theorem spans_verticalRange (nodes : List Position) :
    Spans (verticalRange nodes).1 (verticalRange nodes).2 := by
  cases nodes with
  | nil => exact .inl rfl
  | cons node rest => exact spans_foldl Position.y rest (.inl rfl)

/-- **Folding gives the least and the greatest** of the values that some nodes have in a coordinate,
together with those that were there before. -/
theorem bounds_foldl {coordinate : Position → Float} {nodes : List Position} {values : List Float}
    {low high : Float} (h : Bounds values low high)
    (hnodes : ∀ node ∈ nodes, (coordinate node).isNaN = false) :
    Bounds (values ++ nodes.map coordinate)
      (nodes.foldl (fun low node => lesser low (coordinate node)) low)
      (nodes.foldl (fun high node => greater high (coordinate node)) high) := by
  induction nodes generalizing values low high with
  | nil =>
    rw [List.map_nil, List.append_nil]
    exact h
  | cons node rest ih =>
    obtain ⟨hnode, hrest⟩ := List.forall_mem_cons.mp hnodes
    rw [List.map_cons, List.append_cons]
    exact ih (h.widen hnode) hrest

/-- The altitudes of nodes reach from the lowest to the highest of them. -/
theorem bounds_verticalRange {nodes : List Position} (hne : nodes ≠ [])
    (hnodes : ∀ node ∈ nodes, node.y.isNaN = false) :
    Bounds (nodes.map Position.y) (verticalRange nodes).1 (verticalRange nodes).2 := by
  obtain ⟨first, rest, rfl⟩ := List.exists_cons_of_ne_nil hne
  obtain ⟨hfirst, hrest⟩ := List.forall_mem_cons.mp hnodes
  exact bounds_foldl (Bounds.singleton hfirst) hrest

/-- It makes no difference that the first node is looked at twice. -/
theorem bounds_foldl_from_first (coordinate : Position → Float) {first : Position}
    {rest : List Position} (hnodes : ∀ node ∈ first :: rest, (coordinate node).isNaN = false) :
    Bounds ((first :: rest).map coordinate)
      ((first :: rest).foldl (fun low node => lesser low (coordinate node)) (coordinate first))
      ((first :: rest).foldl (fun high node => greater high (coordinate node))
        (coordinate first)) := by
  refine (bounds_foldl (Bounds.singleton (hnodes first List.mem_cons_self)) hnodes).congr fun x => ?_
  simp

/-- Nodes at one altitude reach from there to there. -/
theorem verticalRange_of_level {y : Float} {nodes : List Position} (hne : nodes ≠ [])
    (h : ∀ node ∈ nodes, node.y = y) : verticalRange nodes = (y, y) := by
  obtain ⟨node, rest, rfl⟩ := List.exists_cons_of_ne_nil hne
  obtain rfl := h node List.mem_cons_self
  have hrest : ∀ other ∈ rest, other.y = node.y :=
    fun other hother => h other (List.mem_cons_of_mem node hother)
  rw [verticalRange, foldl_level lesser_self hrest, foldl_level greater_self hrest]

theorem raiseLast_append_singleton (y : Float) (nodes : List Position) (p : Position) :
    raiseLast y (nodes ++ [p]) = nodes ++ [p.withY y] := by
  induction nodes with
  | nil => rfl
  | cons node rest ih =>
    cases rest with
    | nil => rfl
    | cons next rest =>
      rw [List.cons_append, List.cons_append, raiseLast]
      · exact congrArg (node :: ·) ih
      · exact fun h => by cases h

theorem mem_raiseLast {y : Float} {nodes : List Position} {p : Position}
    (h : p ∈ raiseLast y nodes) : p ∈ nodes ∨ ∃ q ∈ nodes, p = q.withY y := by
  rcases List.eq_nil_or_concat nodes with rfl | ⟨rest, last, rfl⟩
  · exact .inl h
  · rw [List.concat_eq_append] at h ⊢
    rw [raiseLast_append_singleton, List.mem_append, List.mem_singleton] at h
    rcases h with h | rfl
    · exact .inl (List.mem_append_left _ h)
    · exact .inr ⟨last, by simp, rfl⟩

/-- The nodes stand above or below the vertices of a ring. -/
def SeenAs (nodes vertices : List Position) : Prop :=
  nodes.map (·.withY 0) = vertices.map (·.withY 0)

/-- What does not depend on the altitude is the same for the nodes and for the ring. -/
theorem SeenAs.map_eq {α : Type} {f : Position → α} (hf : ∀ p y, f (p.withY y) = f p)
    {nodes vertices : List Position} (h : SeenAs nodes vertices) :
    nodes.map f = vertices.map f := by
  have hlevel : ∀ points : List Position, points.map f = (points.map (·.withY 0)).map f := by
    intro points
    rw [List.map_map]
    exact List.map_congr_left fun p _ => (hf p 0).symm
  rw [hlevel nodes, h, ← hlevel vertices]

theorem SeenAs.forall_iff {α : Type} {f : Position → α} (hf : ∀ p y, f (p.withY y) = f p)
    {nodes vertices : List Position} (h : SeenAs nodes vertices) {P : α → Prop} :
    (∀ node ∈ nodes, P (f node)) ↔ ∀ v ∈ vertices, P (f v) := by
  rw [← List.forall_mem_map, h.map_eq hf, List.forall_mem_map]

theorem SeenAs.length_eq {nodes vertices : List Position} (h : SeenAs nodes vertices) :
    nodes.length = vertices.length := by
  simpa using congrArg List.length h

theorem seenAs_map_withY (y : Float) (vertices : List Position) :
    SeenAs (vertices.map (·.withY y)) vertices :=
  List.map_map

theorem seenAs_raiseLast (y : Float) (nodes : List Position) :
    SeenAs (raiseLast y nodes) nodes := by
  rcases List.eq_nil_or_concat nodes with rfl | ⟨rest, p, rfl⟩
  · rfl
  · rw [List.concat_eq_append, SeenAs, raiseLast_append_singleton, List.map_append, List.map_append]
    rfl

/-- **The raised node carries the vertical extent:** nodes on a floor with the last one raised to a
ceiling reach from the lesser of the two altitudes to the greater. -/
theorem verticalRange_raiseLast {low high : Float} {nodes : List Position} (hlen : 2 ≤ nodes.length)
    (h : ∀ node ∈ nodes, node.y = low) :
    verticalRange (raiseLast high nodes) = (lesser low high, greater low high) := by
  rcases List.eq_nil_or_concat nodes with rfl | ⟨floor, p, rfl⟩
  · simp at hlen
  rw [List.concat_eq_append] at h ⊢
  rw [List.concat_eq_append, List.length_append, List.length_singleton] at hlen
  obtain ⟨node, rest, rfl⟩ := List.exists_cons_of_length_pos (by omega : 0 < floor.length)
  obtain rfl := h node (by simp)
  have hrest : ∀ other ∈ rest, other.y = node.y := fun other hother => h other (by simp [hother])
  rw [raiseLast_append_singleton, List.cons_append, verticalRange, List.foldl_append,
    List.foldl_append, foldl_level lesser_self hrest, foldl_level greater_self hrest]
  rfl

/-! ### Rings -/

/-- A vertex of a ring in another world and at another altitude. -/
def Position.over (world : String) (y : Float) (p : Position) : Position :=
  ⟨world, p.x, y, p.z⟩

/-- A ring is seen from above: worlds and altitudes of its vertices do not matter. -/
theorem ringContains_map_over (world : String) (y : Float) (vertices : List Position)
    (p : Position) : ringContains (vertices.map (.over world y)) p = ringContains vertices p := by
  have hedges : ringEdges (vertices.map (.over world y)) =
      (ringEdges vertices).map (Prod.map (.over world y) (.over world y)) := by
    rw [ringEdges, ringEdges, List.getLast?_map]
    cases vertices.getLast? with
    | none => rfl
    | some last =>
      show (vertices.map _).zip ((last :: vertices).map _) = _
      rw [List.zip_map]
  rw [ringContains, ringContains, hedges, List.length_map, List.countP_map]
  rfl

theorem ringMinCorner_y {vertices : List Position} (h : vertices ≠ []) (y : Float) :
    (ringMinCorner vertices y).y = y := by
  obtain ⟨v, rest, rfl⟩ := List.exists_cons_of_ne_nil h
  rfl

theorem ringMaxCorner_y {vertices : List Position} (h : vertices ≠ []) (y : Float) :
    (ringMaxCorner vertices y).y = y := by
  obtain ⟨v, rest, rfl⟩ := List.exists_cons_of_ne_nil h
  rfl

/-! ### What a selection makes -/

/-- The points are all in one world. -/
def OneWorld (points : List Position) : Prop :=
  ∃ world, ∀ p ∈ points, p.world = world

/-- No node is in another world. -/
theorem find?_otherWorld_eq_none {world : String} {nodes : List Position}
    (h : ∀ node ∈ nodes, node.world = world) :
    nodes.find? (fun node => node.world != world) = none := by
  rw [List.find?_eq_none]
  intro node hnode
  simp [h node hnode]

/-- **Three nodes and more in one world make a prism.** -/
theorem shapeOf_polygon {world : String} {nodes : List Position} (hlen : 3 ≤ nodes.length)
    (hworld : ∀ node ∈ nodes, node.world = world) {low high : Float}
    (hrange : verticalRange nodes = (low, high)) :
    SelectionMode.polygon.shapeOf nodes none =
      .ok (.polygonPrism ⟨low, high, nodes.map (.over world low)⟩) := by
  obtain ⟨first, rest, rfl⟩ := List.exists_cons_of_length_pos (by omega : 0 < nodes.length)
  obtain rfl := hworld first List.mem_cons_self
  have henough : ¬ (first :: rest).length < SelectionMode.polygon.minimumPoints :=
    Nat.not_lt.mpr hlen
  rw [SelectionMode.shapeOf, if_neg henough, find?_otherWorld_eq_none hworld]
  simp only [Option.getD_none, hrange]
  rfl

/-- Nodes above or below a ring make a prism over the ring. -/
theorem SeenAs.shapeOf {world : String} {nodes vertices : List Position}
    (h : SeenAs nodes vertices) (hlen : 3 ≤ vertices.length)
    (hworld : ∀ v ∈ vertices, v.world = world) {low high : Float}
    (hrange : verticalRange nodes = (low, high)) :
    SelectionMode.polygon.shapeOf nodes none =
      .ok (.polygonPrism ⟨low, high, vertices.map (.over world low)⟩) := by
  have hnodesWorld : ∀ node ∈ nodes, node.world = world :=
    (h.forall_iff (f := Position.world) (fun _ _ => rfl) (P := (· = world))).mpr hworld
  rw [shapeOf_polygon (h.length_eq ▸ hlen) hnodesWorld hrange, h.map_eq fun _ _ => rfl]

/-- Two corners in one world make a box. -/
theorem shapeOf_cuboid {a b : Position} (hworld : b.world = a.world) :
    SelectionMode.cuboid.shapeOf [a, b] none =
      .ok (.cuboid (boundingCuboid a [a, b] (lesser a.y b.y) (greater a.y b.y))) := by
  have hone : ∀ node ∈ [a, b], node.world = a.world := by simp [hworld]
  have henough : ¬ [a, b].length < SelectionMode.cuboid.minimumPoints := Nat.lt_irrefl 2
  rw [SelectionMode.shapeOf, if_neg henough, find?_otherWorld_eq_none hone]
  rfl

/-- The form that a shape has when it comes out of a selection: a box has its least corner first,
and the ring of a prism lies on the floor. -/
def Shape.Settled : Shape → Prop
  | cuboid s => s.corner2.world = s.corner1.world ∧ Spans s.corner1.x s.corner2.x ∧
      Spans s.corner1.y s.corner2.y ∧ Spans s.corner1.z s.corner2.z
  | polygonPrism s => Spans s.minY s.maxY ∧ ∀ v ∈ s.vertices, v.y = s.minY
  | _ => False

/-- **What comes out of a selection is settled,** whatever its nodes are. -/
theorem settled_of_shapeOf {mode : SelectionMode} {nodes : List Position} {s : Shape}
    (h : mode.shapeOf nodes none = .ok s) : s.Settled := by
  cases nodes with
  | nil => cases h
  | cons first rest =>
    have hspans := spans_verticalRange (first :: rest)
    rcases hrange : verticalRange (first :: rest) with ⟨low, high⟩
    rw [hrange] at hspans
    rw [SelectionMode.shapeOf] at h
    split at h
    · cases h
    split at h
    · cases h
    simp only [Option.getD_none, hrange] at h
    cases mode with
    | cuboid =>
      obtain rfl := Except.ok.inj h
      exact ⟨(rfl : first.world = first.world), spans_foldl Position.x _ (.inl rfl), hspans,
        spans_foldl Position.z _ (.inl rfl)⟩
    | polygon =>
      obtain rfl := Except.ok.inj h
      refine ⟨hspans, fun v hv => ?_⟩
      obtain ⟨node, -, rfl⟩ := List.mem_map.mp hv
      rfl

/-! ### Boxes -/

theorem boundingCuboid_pair (a b : Position) (low high : Float) :
    boundingCuboid a [a, b] low high =
      ⟨⟨a.world, lesser a.x b.x, low, lesser a.z b.z⟩,
        ⟨a.world, greater a.x b.x, high, greater a.z b.z⟩⟩ := by
  simp only [boundingCuboid, List.foldl_cons, List.foldl_nil, lesser_self, greater_self]

namespace Cuboid

/-- The box with its least corner first. -/
def sorted (c : Cuboid) : Cuboid :=
  ⟨c.minCorner, c.maxCorner⟩

/-- The coordinates of both corners are numbers. -/
def IsNumeric (c : Cuboid) : Prop :=
  (c.corner1.x.isNaN = false ∧ c.corner1.y.isNaN = false ∧ c.corner1.z.isNaN = false) ∧
    c.corner2.x.isNaN = false ∧ c.corner2.y.isNaN = false ∧ c.corner2.z.isNaN = false

theorem IsNumeric.sorted {c : Cuboid} (h : c.IsNumeric) : c.sorted.IsNumeric := by
  obtain ⟨⟨hx, hy, hz⟩, hx', hy', hz'⟩ := h
  exact ⟨⟨isNaN_lesser hx hx', isNaN_lesser hy hy', isNaN_lesser hz hz'⟩,
    isNaN_greater hx hx', isNaN_greater hy hy', isNaN_greater hz hz'⟩

/-- The box made from the least and the greatest corner. -/
theorem shapeOf_nodes (c : Cuboid) :
    SelectionMode.cuboid.shapeOf (Shape.cuboid c).nodes none = .ok (.cuboid c.sorted.sorted) := by
  have hworld : c.maxCorner.world = c.minCorner.world := (rfl : c.corner1.world = c.corner1.world)
  rw [Shape.nodes, shapeOf_cuboid hworld, boundingCuboid_pair]
  rfl

/-- Corners of the same rank in every coordinate bound the same points. -/
theorem contains_sorted {c : Cuboid} (h : c.IsNumeric) (p : Position) :
    c.sorted.contains p = c.contains p := by
  obtain ⟨⟨hx, hy, hz⟩, hx', hy', hz'⟩ := h
  rw [Bool.eq_iff_iff]
  simp only [contains, Bool.and_eq_true, decide_eq_true_iff]
  simp only [sorted, minCorner, maxCorner]
  rw [le_congr (rank?_lesser_lesser_greater hx hx') rfl,
    le_congr rfl (rank?_greater_lesser_greater hx hx'),
    le_congr (rank?_lesser_lesser_greater hy hy') rfl,
    le_congr rfl (rank?_greater_lesser_greater hy hy'),
    le_congr (rank?_lesser_lesser_greater hz hz') rfl,
    le_congr rfl (rank?_greater_lesser_greater hz hz')]

theorem rank?_minCorner_y_sorted {c : Cuboid} (h : c.IsNumeric) :
    rank? c.sorted.minCorner.y = rank? c.minCorner.y :=
  rank?_lesser_lesser_greater h.1.2.1 h.2.2.1

theorem rank?_maxCorner_y_sorted {c : Cuboid} (h : c.IsNumeric) :
    rank? c.sorted.maxCorner.y = rank? c.maxCorner.y :=
  rank?_greater_lesser_greater h.1.2.1 h.2.2.1

/-- A box that came out of a selection has its least corner first. -/
theorem sorted_eq_self {c : Cuboid} (h : (Shape.cuboid c).Settled) : c.sorted = c := by
  obtain ⟨⟨w, x, y, z⟩, ⟨w', x', y', z'⟩⟩ := c
  obtain ⟨rfl : w' = w, hx, hy, hz⟩ := h
  simp only [sorted, minCorner, maxCorner, hx.lesser_eq, hx.greater_eq, hy.lesser_eq,
    hy.greater_eq, hz.lesser_eq, hz.greater_eq]

end Cuboid

/-! ### Polygons -/

namespace PolygonPrism

/-- The prism between the lesser and the greater of its altitudes, with its ring on the floor. -/
def settled (world : String) (s : PolygonPrism) : PolygonPrism :=
  ⟨lesser s.minY s.maxY, greater s.minY s.maxY,
    s.vertices.map (.over world (lesser s.minY s.maxY))⟩

/-- The nodes of a prism lie on its floor, but for the last one. -/
theorem verticalRange_nodes {s : PolygonPrism} (hlen : 3 ≤ s.vertices.length) :
    verticalRange (Shape.polygonPrism s).nodes = (lesser s.minY s.maxY, greater s.minY s.maxY) := by
  refine verticalRange_raiseLast (by rw [List.length_map]; omega) fun node hnode => ?_
  obtain ⟨v, -, rfl⟩ := List.mem_map.mp hnode
  rfl

theorem shapeOf_nodes {s : PolygonPrism} {world : String} (hlen : 3 ≤ s.vertices.length)
    (hworld : ∀ v ∈ s.vertices, v.world = world) :
    SelectionMode.polygon.shapeOf (Shape.polygonPrism s).nodes none =
      .ok (.polygonPrism (s.settled world)) := by
  have hseen : SeenAs (Shape.polygonPrism s).nodes s.vertices :=
    (seenAs_raiseLast _ _).trans (seenAs_map_withY _ _)
  exact hseen.shapeOf hlen hworld (verticalRange_nodes hlen)

/-- Settling moves a prism by no more than the sign of zero. -/
theorem contains_settled {s : PolygonPrism} (hmin : s.minY.isNaN = false)
    (hmax : s.maxY.isNaN = false) (hle : s.minY ≤ s.maxY) (world : String) (p : Position) :
    (s.settled world).contains p = s.contains p := by
  rw [contains, contains]
  simp only [settled, ringContains_map_over,
    lt_congr rfl (rank?_lesser_of_le hmin hmax hle) (x := p.y),
    lt_congr (rank?_greater_of_le hmin hmax hle) rfl (y := p.y)]

/-- A prism that came out of a selection has its floor below its ceiling and its ring on the
floor. -/
theorem settled_eq_self {s : PolygonPrism} (h : (Shape.polygonPrism s).Settled)
    {world : String} (hworld : ∀ v ∈ s.vertices, v.world = world) : s.settled world = s := by
  obtain ⟨low, high, vertices⟩ := s
  obtain ⟨hspans, hfloor⟩ := h
  rw [settled, hspans.lesser_eq, hspans.greater_eq]
  congr 1
  refine (List.map_congr_left fun v hv => ?_).trans (List.map_id vertices)
  rw [Position.over, ← hworld v hv, ← hfloor v hv]
  rfl

end PolygonPrism

namespace FlatPolygon

/-- The prism of no height over the ring. -/
def prism (world : String) (s : FlatPolygon) : PolygonPrism :=
  ⟨s.y, s.y, s.vertices.map (.over world s.y)⟩

/-- The nodes of a flat polygon all lie at its altitude. -/
theorem shapeOf_nodes {s : FlatPolygon} {world : String} (hlen : 3 ≤ s.vertices.length)
    (hworld : ∀ v ∈ s.vertices, v.world = world) :
    SelectionMode.polygon.shapeOf (Shape.flatPolygon s).nodes none =
      .ok (.polygonPrism (s.prism world)) := by
  refine (seenAs_map_withY s.y s.vertices).shapeOf hlen hworld (verticalRange_of_level ?_ ?_)
  · intro hnil
    rw [List.map_eq_nil_iff] at hnil
    rw [hnil] at hlen
    cases hlen
  · intro node hnode
    obtain ⟨v, -, rfl⟩ := List.mem_map.mp hnode
    rfl

/-- A prism of no height contains what is at its altitude. -/
theorem contains_prism {s : FlatPolygon} (hy : s.y.isNaN = false) {p : Position}
    (hp : p.y.isNaN = false) (world : String) :
    (s.prism world).contains p = s.contains p := by
  rw [PolygonPrism.contains, contains, prism, ringContains_map_over]
  congr 1
  rw [Bool.eq_iff_iff, beq_iff_not_lt hp hy]
  simp

end FlatPolygon

/-! ### All shapes -/

/-- The coordinates of a position. -/
def Position.coordinates (p : Position) : List Float :=
  [p.x, p.y, p.z]

namespace Shape

/-- The shapes that a selection can make again: boxes, and rings of three vertices and more in one
world, with a floor that is not above the ceiling. -/
def Rebuildable : Shape → Prop
  | cuboid _ => True
  | polygonPrism s => 3 ≤ s.vertices.length ∧ OneWorld s.vertices ∧ s.minY ≤ s.maxY
  | flatPolygon s => 3 ≤ s.vertices.length ∧ OneWorld s.vertices
  | _ => False

/-- All coordinates of a shape. -/
def coordinates : Shape → List Float
  | cuboid s => s.corner1.coordinates ++ s.corner2.coordinates
  | polygonPrism s => s.minY :: s.maxY :: s.vertices.flatMap Position.coordinates
  | flatPolygon s => s.y :: s.vertices.flatMap Position.coordinates
  | cylinder s => s.radius :: s.minY :: s.maxY :: s.center.coordinates
  | world s => [s.minY, s.maxY]

/-- The shape `t` contains the same points as `s`, and has the same lowest and highest altitude.
An altitude that is no number is neither above nor below any other, so that a prism does not leave
it out; but a flat polygon does. -/
structure SameExtent (s t : Shape) : Prop where
  contains : ∀ p, p.y.isNaN = false ∨ s.dimension = .three → t.contains p = s.contains p
  lowest : (t.minCorner.y == s.minCorner.y) = true
  highest : (t.maxCorner.y == s.maxCorner.y) = true

theorem isNumeric_of_coordinates {c : Cuboid}
    (h : ∀ x ∈ (cuboid c).coordinates, x.isNaN = false) : c.IsNumeric := by
  simpa [coordinates, Position.coordinates, Cuboid.IsNumeric, and_assoc] using h

/-- A box is made again with its least corner first. -/
theorem sameExtent_sorted {c : Cuboid} (h : c.IsNumeric) :
    (cuboid c).SameExtent (.cuboid c.sorted.sorted) where
  contains p _ := (Cuboid.contains_sorted h.sorted p).trans (Cuboid.contains_sorted h p)
  lowest := by
    refine beq_of_rank?_eq ?_
      ((Cuboid.rank?_minCorner_y_sorted h.sorted).trans (Cuboid.rank?_minCorner_y_sorted h))
    exact isNaN_lesser h.sorted.sorted.1.2.1 h.sorted.sorted.2.2.1
  highest := by
    refine beq_of_rank?_eq ?_
      ((Cuboid.rank?_maxCorner_y_sorted h.sorted).trans (Cuboid.rank?_maxCorner_y_sorted h))
    exact isNaN_greater h.sorted.sorted.1.2.1 h.sorted.sorted.2.2.1

theorem minCorner_y_polygonPrism {s : PolygonPrism} (h : s.vertices ≠ []) :
    (polygonPrism s).minCorner.y = s.minY :=
  ringMinCorner_y h s.minY

theorem maxCorner_y_polygonPrism {s : PolygonPrism} (h : s.vertices ≠ []) :
    (polygonPrism s).maxCorner.y = s.maxY :=
  ringMaxCorner_y h s.maxY

/-- A prism is made again with its ring on the floor. -/
theorem sameExtent_settled {s : PolygonPrism} (hne : s.vertices ≠ [])
    (hmin : s.minY.isNaN = false) (hmax : s.maxY.isNaN = false) (hle : s.minY ≤ s.maxY)
    (world : String) : (polygonPrism s).SameExtent (.polygonPrism (s.settled world)) := by
  have hne' : (s.settled world).vertices ≠ [] := by simpa [PolygonPrism.settled] using hne
  refine ⟨fun p _ => PolygonPrism.contains_settled hmin hmax hle world p, ?_, ?_⟩
  · rw [minCorner_y_polygonPrism hne, minCorner_y_polygonPrism hne']
    exact beq_of_rank?_eq (isNaN_lesser hmin hmax) (rank?_lesser_of_le hmin hmax hle)
  · rw [maxCorner_y_polygonPrism hne, maxCorner_y_polygonPrism hne']
    exact beq_of_rank?_eq (isNaN_greater hmin hmax) (rank?_greater_of_le hmin hmax hle)

/-- A flat polygon is made again as a prism of no height. -/
theorem sameExtent_flat {s : FlatPolygon} (hne : s.vertices ≠ []) (hy : s.y.isNaN = false)
    (world : String) : (flatPolygon s).SameExtent (.polygonPrism (s.prism world)) := by
  have hne' : (s.prism world).vertices ≠ [] := by simpa [FlatPolygon.prism] using hne
  refine ⟨fun p hp => FlatPolygon.contains_prism hy ?_ world, ?_, ?_⟩
  · exact hp.resolve_right fun h => by cases h
  · rw [minCorner_y_polygonPrism hne', minCorner, ringMinCorner_y hne]
    exact beq_of_rank?_eq hy rfl
  · rw [maxCorner_y_polygonPrism hne', maxCorner, ringMaxCorner_y hne]
    exact beq_of_rank?_eq hy rfl

theorem ne_nil_of_three_le {vertices : List Position} (h : 3 ≤ vertices.length) :
    vertices ≠ [] :=
  List.ne_nil_of_length_pos (by omega)

/-- **A shape is made again from its nodes,** with the same extent, and exactly if it came out of a
selection. -/
theorem exists_rebuilt {s : Shape} (h : s.Rebuildable)
    (hnumbers : ∀ x ∈ s.coordinates, x.isNaN = false) :
    ∃ rebuilt, (SelectionMode.ofShape s).shapeOf s.nodes none = .ok rebuilt ∧
      s.SameExtent rebuilt ∧ (s.Settled → rebuilt = s) := by
  cases s with
  | cuboid c =>
    refine ⟨_, c.shapeOf_nodes, sameExtent_sorted (isNumeric_of_coordinates hnumbers), ?_⟩
    intro hsettled
    rw [Cuboid.sorted_eq_self hsettled, Cuboid.sorted_eq_self hsettled]
  | polygonPrism s =>
    obtain ⟨hlen, ⟨world, hworld⟩, hle⟩ := h
    have hmin : s.minY.isNaN = false := hnumbers _ (by simp [coordinates])
    have hmax : s.maxY.isNaN = false := hnumbers _ (by simp [coordinates])
    refine ⟨_, PolygonPrism.shapeOf_nodes hlen hworld,
      sameExtent_settled (ne_nil_of_three_le hlen) hmin hmax hle world, ?_⟩
    intro hsettled
    rw [PolygonPrism.settled_eq_self hsettled hworld]
  | flatPolygon s =>
    obtain ⟨hlen, world, hworld⟩ := h
    have hy : s.y.isNaN = false := hnumbers _ (by simp [coordinates])
    exact ⟨_, FlatPolygon.shapeOf_nodes hlen hworld,
      sameExtent_flat (ne_nil_of_three_le hlen) hy world, fun hsettled => hsettled.elim⟩
  | cylinder s => exact h.elim
  | world s => exact h.elim

end Shape

end RegionPolicy
