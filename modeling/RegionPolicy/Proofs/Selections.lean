import RegionPolicy.Proofs.RingBounds

/-!
# What a selection makes of its nodes

A selection fails for one of two reasons, and the first of them that applies is reported: there are
fewer nodes than its mode needs, or a node is in another world than the first. Otherwise it makes a
shape.

In cuboid mode that is the least box around the nodes. The extremes are looked up in two ways, the
horizontal ones from the first node on through all of them and the vertical ones through the others,
and the box orders them once more. What comes out is the same in every coordinate: two of the values
that the nodes have there, with all of them in between. No more is needed for a box to be the least,
and of the order of the nodes nothing is left, since boxes that are both the least contain the same
points. Corners may differ all the same: of two zeros the later one is taken.

In polygon mode the nodes are the ring as they stand, moved to the altitude of the lowest.

## Main definitions

* `Cuboid.IsLeastAround` — a box contains some points, and is part of all boxes that do.
* `SelectionError.Describes` — what a failure reports is so.

## Main results

* `Cuboid.Bounded.isLeastAround` — bounds in every coordinate make a least box.
* `SelectionMode.shapeOf_eq_notEnoughPoints_iff`, `SelectionMode.shapeOf_eq_mixedWorlds_iff`,
  `SelectionMode.exists_shapeOf_iff` — when a selection fails, how, and when it does not.
* `SelectionMode.shapeOf_faithful` — all of it together, with what the shape is.
-/

namespace RegionPolicy

/-! ### Least boxes -/

namespace Cuboid

variable {c c' : Cuboid} {points : List Position}

theorem contains_iff_between {p : Position} :
    c.contains p = true ↔ p.Between c.minCorner c.maxCorner := by
  simp only [contains, Bool.and_eq_true, decide_eq_true_iff]
  constructor
  · rintro ⟨⟨⟨⟨⟨hx, hx'⟩, hy⟩, hy'⟩, hz⟩, hz'⟩
    exact ⟨⟨hx, hx'⟩, ⟨hy, hy'⟩, hz, hz'⟩
  · rintro ⟨⟨hx, hx'⟩, ⟨hy, hy'⟩, hz, hz'⟩
    exact ⟨⟨⟨⟨⟨hx, hx'⟩, hy⟩, hy'⟩, hz⟩, hz'⟩

/-- The least box around some points: it contains them all, and every box that does contains all of
it. -/
structure IsLeastAround (c : Cuboid) (points : List Position) : Prop where
  contains_of_mem : ∀ q ∈ points, c.contains q = true
  least : ∀ c' : Cuboid, (∀ q ∈ points, c'.contains q = true) →
    ∀ p, c.contains p = true → c'.contains p = true

/-- Boxes that are both the least around the same points contain the same. -/
theorem IsLeastAround.contains_eq (h : c.IsLeastAround points) {points' : List Position}
    (h' : c'.IsLeastAround points') (hpoints : ∀ q, q ∈ points' ↔ q ∈ points) (p : Position) :
    c'.contains p = c.contains p := by
  rw [Bool.eq_iff_iff]
  exact ⟨h'.least c (fun q hq => h.contains_of_mem q ((hpoints q).mp hq)) p,
    h.least c' (fun q hq => h'.contains_of_mem q ((hpoints q).mpr hq)) p⟩

/-- A box that reaches in every coordinate from the least to the greatest value of some points. -/
structure Bounded (c : Cuboid) (points : List Position) : Prop where
  x : Bounds (points.map Position.x) c.minCorner.x c.maxCorner.x
  y : Bounds (points.map Position.y) c.minCorner.y c.maxCorner.y
  z : Bounds (points.map Position.z) c.minCorner.z c.maxCorner.z

/-- What lies between the bounds of some values lies between any two numbers that have the values
in between. -/
theorem between_of_bounds {coordinate : Position → Float} {low high low' high' x : Float}
    (h : Bounds (points.map coordinate) low high)
    (hpoints : ∀ q ∈ points, low' ≤ coordinate q ∧ coordinate q ≤ high')
    (hx : low ≤ x ∧ x ≤ high) : low' ≤ x ∧ x ≤ high' := by
  obtain ⟨q, hq, rfl⟩ := List.mem_map.mp h.low_mem
  obtain ⟨q', hq', rfl⟩ := List.mem_map.mp h.high_mem
  exact ⟨le_trans_float (hpoints q hq).1 hx.1, le_trans_float hx.2 (hpoints q' hq').2⟩

/-- **Bounds in every coordinate make a least box.** -/
theorem Bounded.isLeastAround (h : c.Bounded points) : c.IsLeastAround points where
  contains_of_mem q hq := contains_iff_between.mpr
    ⟨h.x.between _ (List.mem_map_of_mem hq), h.y.between _ (List.mem_map_of_mem hq),
      h.z.between _ (List.mem_map_of_mem hq)⟩
  least c' hc' p hp := by
    have hpoints : ∀ q ∈ points, q.Between c'.minCorner c'.maxCorner :=
      fun q hq => contains_iff_between.mp (hc' q hq)
    obtain ⟨hx, hy, hz⟩ := contains_iff_between.mp hp
    exact contains_iff_between.mpr ⟨between_of_bounds h.x (fun q hq => (hpoints q hq).x) hx,
      between_of_bounds h.y (fun q hq => (hpoints q hq).y) hy,
      between_of_bounds h.z (fun q hq => (hpoints q hq).z) hz⟩

end Cuboid

/-! ### When a selection fails -/

/-- The first of all nodes, and the first one that is in another world. -/
def FirstStray (nodes : List Position) (first stray : Position) : Prop :=
  ∃ before after, nodes = before ++ stray :: after ∧ nodes.head? = some first ∧
    (∀ node ∈ before, node.world = first.world) ∧ stray.world ≠ first.world

theorem FirstStray.mem {nodes : List Position} {first stray : Position}
    (h : FirstStray nodes first stray) : first ∈ nodes.head? ∧ stray ∈ nodes := by
  obtain ⟨before, after, rfl, hfirst, -⟩ := h
  exact ⟨hfirst, by simp⟩

/-- What the failure of a selection reports is so. -/
def SelectionError.Describes (mode : SelectionMode) (nodes : List Position) :
    SelectionError → Prop
  | notEnoughPoints mode' required actual =>
    mode' = mode ∧ required = mode.minimumPoints ∧ actual = nodes.length
  | mixedWorlds here there =>
    ∃ first stray, FirstStray nodes first stray ∧ here = first.world ∧ there = stray.world

namespace SelectionMode

variable {mode : SelectionMode} {nodes : List Position} {s : Shape}

theorem minimumPoints_pos (mode : SelectionMode) : 0 < mode.minimumPoints := by
  cases mode <;> decide

theorem shapeOf_of_few (h : nodes.length < mode.minimumPoints) :
    mode.shapeOf nodes none =
      .error (.notEnoughPoints mode mode.minimumPoints nodes.length) := by
  cases nodes with
  | nil => rfl
  | cons first rest => rw [shapeOf, if_pos h]

/-- **How a selection can end:** there are too few nodes, or there is a first one in another world,
or there is a shape. -/
theorem shapeOf_cases (mode : SelectionMode) (nodes : List Position) :
    nodes.length < mode.minimumPoints ∧ mode.shapeOf nodes none =
        .error (.notEnoughPoints mode mode.minimumPoints nodes.length) ∨
      mode.minimumPoints ≤ nodes.length ∧
        ((∃ first stray, FirstStray nodes first stray ∧
            mode.shapeOf nodes none = .error (.mixedWorlds first.world stray.world)) ∨
          OneWorld nodes ∧ ∃ s, mode.shapeOf nodes none = .ok s) := by
  rcases Nat.lt_or_ge nodes.length mode.minimumPoints with hfew | henough
  · exact .inl ⟨hfew, shapeOf_of_few hfew⟩
  refine .inr ⟨henough, ?_⟩
  obtain ⟨first, rest, rfl⟩ :=
    List.exists_cons_of_length_pos (lt_of_lt_of_le mode.minimumPoints_pos henough)
  rw [shapeOf, if_neg (Nat.not_lt.mpr henough)]
  cases hfind : (first :: rest).find? fun node => node.world != first.world with
  | some stray =>
    obtain ⟨hstray, before, after, hnodes, hbefore⟩ := List.find?_eq_some_iff_append.mp hfind
    refine .inl ⟨first, stray, ⟨before, after, hnodes, rfl, fun node hnode => ?_, ?_⟩, rfl⟩
    · simpa using hbefore node hnode
    · simpa using hstray
  | none =>
    refine .inr ⟨⟨first.world, fun node hnode => ?_⟩, ?_⟩
    · simpa using List.find?_eq_none.mp hfind node hnode
    · cases mode <;> exact ⟨_, rfl⟩

/-- A selection fails for want of nodes just if there are too few. -/
theorem shapeOf_eq_notEnoughPoints_iff :
    (∃ mode' required actual,
        mode.shapeOf nodes none = .error (.notEnoughPoints mode' required actual)) ↔
      nodes.length < mode.minimumPoints := by
  rcases shapeOf_cases mode nodes with
    ⟨hfew, h⟩ | ⟨henough, ⟨first, stray, -, h⟩ | ⟨-, s, h⟩⟩
  · exact iff_of_true ⟨_, _, _, h⟩ hfew
  all_goals exact iff_of_false (by simp [h]) (Nat.not_lt.mpr henough)

/-- Nodes that are enough all lie in one world unless one lies in another than the first. -/
theorem oneWorld_iff :
    OneWorld nodes ↔ ¬ ∃ first ∈ nodes.head?, ∃ node ∈ nodes, node.world ≠ first.world := by
  push Not
  constructor
  · rintro ⟨world, hworld⟩ first hfirst node hnode
    rw [hworld node hnode, hworld first (List.mem_of_head? hfirst)]
  · intro h
    cases nodes with
    | nil => exact ⟨"", List.forall_mem_nil _⟩
    | cons first rest => exact ⟨first.world, h first rfl⟩

/-- Where there are nodes enough, a selection fails just if one of them is in another world than the
first. -/
theorem shapeOf_eq_mixedWorlds_iff :
    (∃ here there, mode.shapeOf nodes none = .error (.mixedWorlds here there)) ↔
      mode.minimumPoints ≤ nodes.length ∧
        ∃ first ∈ nodes.head?, ∃ node ∈ nodes, node.world ≠ first.world := by
  rcases shapeOf_cases mode nodes with
    ⟨hfew, h⟩ | ⟨henough, ⟨first, stray, hstray, h⟩ | ⟨hone, s, h⟩⟩
  · exact iff_of_false (by simp [h]) fun ⟨henough, _⟩ => Nat.not_lt.mpr henough hfew
  · obtain ⟨hfirst, hmem⟩ := hstray.mem
    obtain ⟨-, -, -, -, -, hother⟩ := hstray
    exact iff_of_true ⟨_, _, h⟩ ⟨henough, first, hfirst, stray, hmem, hother⟩
  · exact iff_of_false (by simp [h]) fun ⟨_, hother⟩ => oneWorld_iff.mp hone hother

/-- Otherwise there is a shape. -/
theorem exists_shapeOf_iff :
    (∃ s, mode.shapeOf nodes none = .ok s) ↔
      mode.minimumPoints ≤ nodes.length ∧ OneWorld nodes := by
  rcases shapeOf_cases mode nodes with
    ⟨hfew, h⟩ | ⟨henough, ⟨first, stray, hstray, h⟩ | ⟨hone, s, h⟩⟩
  · exact iff_of_false (by simp [h]) fun ⟨henough, _⟩ => Nat.not_lt.mpr henough hfew
  · obtain ⟨hfirst, hmem⟩ := hstray.mem
    obtain ⟨-, -, -, -, -, hother⟩ := hstray
    exact iff_of_false (by simp [h]) fun ⟨_, hone⟩ =>
      oneWorld_iff.mp hone ⟨first, hfirst, stray, hmem, hother⟩
  · exact iff_of_true ⟨s, h⟩ ⟨henough, hone⟩

/-- A failure reports what is so. -/
theorem describes_of_shapeOf {e : SelectionError} (h : mode.shapeOf nodes none = .error e) :
    e.Describes mode nodes := by
  rcases shapeOf_cases mode nodes with
    ⟨-, h'⟩ | ⟨-, ⟨first, stray, hstray, h'⟩ | ⟨-, s, h'⟩⟩
  · obtain rfl := Except.error.inj (h'.symm.trans h)
    exact ⟨rfl, rfl, rfl⟩
  · obtain rfl := Except.error.inj (h'.symm.trans h)
    exact ⟨first, stray, hstray, rfl, rfl⟩
  · rw [h'] at h
    cases h

/-- A selection of the same nodes in another order has a shape as well. -/
theorem exists_shapeOf_of_perm (h : mode.shapeOf nodes none = .ok s) {nodes' : List Position}
    (hperm : nodes'.Perm nodes) : ∃ s', mode.shapeOf nodes' none = .ok s' := by
  obtain ⟨henough, world, hworld⟩ := exists_shapeOf_iff.mp ⟨s, h⟩
  exact exists_shapeOf_iff.mpr ⟨hperm.length_eq ▸ henough, world,
    fun node hnode => hworld node (hperm.mem_iff.mp hnode)⟩

/-! ### What the shape is -/

section Numbers

variable (hnumbers : ∀ node ∈ nodes, ∀ x ∈ node.coordinates, x.isNaN = false)
include hnumbers

/-- **In cuboid mode there is a box,** with the bounds of the nodes in every coordinate. -/
theorem exists_bounded_of_cuboid (h : cuboid.shapeOf nodes none = .ok s) :
    ∃ c, s = .cuboid c ∧ c.Bounded nodes := by
  obtain ⟨henough, hone⟩ := exists_shapeOf_iff.mp ⟨s, h⟩
  obtain ⟨first, rest, rfl⟩ := List.exists_cons_of_length_pos (Nat.lt_of_succ_lt henough)
  have hworld : ∀ node ∈ first :: rest, node.world = first.world := by
    simpa using oneWorld_iff.mp hone
  have hne : rest ≠ [] := by
    rintro rfl
    exact Nat.lt_irrefl 1 henough
  have hsettled := settled_of_shapeOf h
  rw [shapeOf_cuboid_cons hne hworld] at h
  obtain rfl := Except.ok.inj h
  refine ⟨_, rfl, ?_⟩
  have hmin := congrArg Cuboid.corner1 (Cuboid.sorted_eq_self hsettled)
  have hmax := congrArg Cuboid.corner2 (Cuboid.sorted_eq_self hsettled)
  dsimp only [Cuboid.sorted] at hmin hmax
  have hcoordinate : ∀ node ∈ first :: rest,
      node.x.isNaN = false ∧ node.y.isNaN = false ∧ node.z.isNaN = false := by
    simpa [Position.coordinates] using hnumbers
  refine ⟨?_, ?_, ?_⟩
  · rw [hmin, hmax]
    exact bounds_foldl_from_first Position.x fun node hnode => (hcoordinate node hnode).1
  · rw [hmin, hmax]
    exact bounds_verticalRange (List.cons_ne_nil _ _) fun node hnode => (hcoordinate node hnode).2.1
  · rw [hmin, hmax]
    exact bounds_foldl_from_first Position.z fun node hnode => (hcoordinate node hnode).2.2

/-- **In polygon mode there is a prism** over the nodes as they stand, from the lowest to the
highest. -/
theorem exists_prism_of_polygon (h : polygon.shapeOf nodes none = .ok s) :
    ∃ world low high, (∀ node ∈ nodes, node.world = world) ∧
      s = .polygonPrism ⟨low, high, nodes.map (.over world low)⟩ ∧
      Bounds (nodes.map Position.y) low high := by
  obtain ⟨henough, world, hworld⟩ := exists_shapeOf_iff.mp ⟨s, h⟩
  rw [shapeOf_polygon henough hworld rfl] at h
  refine ⟨world, _, _, hworld, (Except.ok.inj h).symm, bounds_verticalRange ?_ ?_⟩
  · exact Shape.ne_nil_of_three_le henough
  · exact fun node hnode => hnumbers node hnode _ (by simp [Position.coordinates])

/-- The least box, whatever the order of the nodes. -/
theorem exists_leastBox (h : cuboid.shapeOf nodes none = .ok s) :
    ∃ c, s = .cuboid c ∧ c.IsLeastAround nodes ∧
      ∀ nodes' : List Position, nodes'.Perm nodes →
        ∃ c', cuboid.shapeOf nodes' none = .ok (.cuboid c') ∧
          ∀ p, c'.contains p = c.contains p := by
  obtain ⟨c, rfl, hbounded⟩ := exists_bounded_of_cuboid hnumbers h
  refine ⟨c, rfl, hbounded.isLeastAround, fun nodes' hperm => ?_⟩
  obtain ⟨s', h'⟩ := exists_shapeOf_of_perm h hperm
  have hnumbers' : ∀ node ∈ nodes', ∀ x ∈ node.coordinates, x.isNaN = false :=
    fun node hnode => hnumbers node (hperm.mem_iff.mp hnode)
  obtain ⟨c', rfl, hbounded'⟩ := exists_bounded_of_cuboid hnumbers' h'
  exact ⟨c', h', hbounded.isLeastAround.contains_eq hbounded'.isLeastAround fun q => hperm.mem_iff⟩

end Numbers

/-- **A selection is never silently wrong.** Without a vertical range it fails for want of nodes just
if there are fewer than its mode needs; if there are enough, it fails for mixed worlds just if a node
is in another world than the first; else there is a shape. A failure reports the mode with the counts,
or the world of the first node with that of the first one elsewhere.

Let the coordinates be numbers, as finite ones are. Then the shape is a box that contains all nodes
and is part of every box that does, and any other order of the nodes makes a box that contains the
same points; or it is a prism whose ring is the nodes in their order with their `x` and `z`, and which
reaches from the lowest altitude of a node to the highest. -/
theorem shapeOf_faithful (mode : SelectionMode) (nodes : List Position) :
    ((∃ mode' required actual,
          mode.shapeOf nodes none = .error (.notEnoughPoints mode' required actual)) ↔
        nodes.length < mode.minimumPoints) ∧
      ((∃ here there, mode.shapeOf nodes none = .error (.mixedWorlds here there)) ↔
        mode.minimumPoints ≤ nodes.length ∧
          ∃ first ∈ nodes.head?, ∃ node ∈ nodes, node.world ≠ first.world) ∧
      ((∃ s, mode.shapeOf nodes none = .ok s) ↔
        mode.minimumPoints ≤ nodes.length ∧
          ¬ ∃ first ∈ nodes.head?, ∃ node ∈ nodes, node.world ≠ first.world) ∧
      (∀ e, mode.shapeOf nodes none = .error e → e.Describes mode nodes) ∧
      ((∀ node ∈ nodes, ∀ x ∈ node.coordinates, x.isNaN = false) →
        ∀ s, mode.shapeOf nodes none = .ok s →
          (mode = .cuboid → ∃ c, s = .cuboid c ∧
            (∀ node ∈ nodes, c.contains node = true) ∧
            (∀ c' : Cuboid, (∀ node ∈ nodes, c'.contains node = true) →
              ∀ p, c.contains p = true → c'.contains p = true) ∧
            ∀ nodes' : List Position, nodes'.Perm nodes →
              ∃ c', mode.shapeOf nodes' none = .ok (.cuboid c') ∧
                ∀ p, c'.contains p = c.contains p) ∧
          (mode = .polygon → ∃ world low high, (∀ node ∈ nodes, node.world = world) ∧
            s = .polygonPrism ⟨low, high, nodes.map fun node => ⟨world, node.x, low, node.z⟩⟩ ∧
            ((∃ node ∈ nodes, node.y = low) ∧ ∃ node ∈ nodes, node.y = high) ∧
            ∀ node ∈ nodes, low ≤ node.y ∧ node.y ≤ high)) := by
  refine ⟨shapeOf_eq_notEnoughPoints_iff, shapeOf_eq_mixedWorlds_iff,
    exists_shapeOf_iff.trans (and_congr_right' oneWorld_iff), fun e => describes_of_shapeOf,
    fun hnumbers s h => ⟨?_, ?_⟩⟩
  · rintro rfl
    obtain ⟨c, rfl, hleast, hperm⟩ := exists_leastBox hnumbers h
    exact ⟨c, rfl, hleast.contains_of_mem, hleast.least, hperm⟩
  · rintro rfl
    obtain ⟨world, low, high, hworld, rfl, hbounds⟩ := exists_prism_of_polygon hnumbers h
    exact ⟨world, low, high, hworld, rfl,
      ⟨List.mem_map.mp hbounds.low_mem, List.mem_map.mp hbounds.high_mem⟩,
      fun node hnode => hbounds.between _ (List.mem_map_of_mem hnode)⟩

/-- Three nodes, none of which is the least or the greatest in all coordinates. -/
def zigzag : List Position :=
  [⟨"world", 4, 70, -2⟩, ⟨"world", -3, 60, 8⟩, ⟨"world", 0.5, 64, 0⟩]

/-- The box around them contains all of them. It is part of any larger box, and the box around them
taken from the end contains the same points. -/
theorem shapeOf_faithful_zigzag :
    (∀ node ∈ zigzag, ∀ x ∈ node.coordinates, x.isNaN = false) ∧
      ∃ c c', cuboid.shapeOf zigzag none = .ok (.cuboid c) ∧
        cuboid.shapeOf zigzag.reverse none = .ok (.cuboid c') ∧
        (∀ node ∈ zigzag, c.contains node = true) ∧
        (∀ p, c.contains p = true →
          Cuboid.contains ⟨⟨"", 5, 0, -2⟩, ⟨"", -3, 100, 9⟩⟩ p = true) ∧
        ∀ p, c'.contains p = c.contains p := by
  have hnumbers : ∀ node ∈ zigzag, ∀ x ∈ node.coordinates, x.isNaN = false := by decide +kernel
  obtain ⟨-, -, hshape, -, hnodes⟩ := shapeOf_faithful .cuboid zigzag
  obtain ⟨s, h⟩ := hshape.mpr (by decide)
  obtain ⟨c, rfl, hcontains, hleast, hperm⟩ := (hnodes hnumbers s h).1 rfl
  obtain ⟨c', h', hsame⟩ := hperm _ (List.reverse_perm zigzag)
  exact ⟨hnumbers, c, c', h, h', hcontains, hleast _ (by decide +kernel), hsame⟩

end SelectionMode

end RegionPolicy
