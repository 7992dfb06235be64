import RegionPolicy.Proofs.StoredShapes

/-!
# Shapes read in another mode

A shape is stored as its nodes, and what they mean depends on the mode that is stored with them. A
prism whose nodes are read as those of a cuboid comes back as the box around it, which is always
more: it has a corner on the highest edge of the ring, and a ring contains no point of its highest
edge. A cuboid has two nodes, which are too few for a polygon, so it comes back as the empty shape,
which contains the origin of the coordinates and nothing else.

So a shape that came out of a selection is the same after it was stored just if the mode that is
stored is its own; the only exception is the single point at the origin.

## Main definitions

* `Shape.rereadAs` — what the nodes of a shape make in a mode.
* `Shape.AtOrigin` — the single point at the origin of the coordinates.

## Main results

* `ringContains_eq_false` — a ring contains no point that is not below any of its vertices.
* `Shape.contains_rereadAs_iff` — when a shape is the same after it was stored.
-/

namespace RegionPolicy

/-! ### Boxes and rings -/

/-- Two nodes and more in one world make a box. -/
theorem shapeOf_cuboid_cons {first : Position} {rest : List Position} (hne : rest ≠ [])
    (hworld : ∀ node ∈ first :: rest, node.world = first.world) :
    SelectionMode.cuboid.shapeOf (first :: rest) none =
      .ok (.cuboid (boundingCuboid first (first :: rest) (verticalRange (first :: rest)).1
        (verticalRange (first :: rest)).2)) := by
  have hrest : 0 < rest.length := List.length_pos_of_ne_nil hne
  have henough : ¬ (first :: rest).length < SelectionMode.cuboid.minimumPoints := by
    rw [List.length_cons]
    show ¬ rest.length + 1 < 2
    omega
  rw [SelectionMode.shapeOf, if_neg henough, find?_otherWorld_eq_none hworld]
  rfl

/-- The box around nodes whose coordinates are numbers has such coordinates. -/
theorem isNumeric_boundingCuboid {first : Position} {rest : List Position}
    (h : ∀ node ∈ first :: rest, ∀ x ∈ node.coordinates, x.isNaN = false) :
    (boundingCuboid first (first :: rest) (verticalRange (first :: rest)).1
      (verticalRange (first :: rest)).2).IsNumeric := by
  have hx := bounds_foldl_from_first Position.x fun node hnode =>
    h node hnode _ (by simp [Position.coordinates])
  have hy := bounds_verticalRange (List.cons_ne_nil first rest) fun node hnode =>
    h node hnode _ (by simp [Position.coordinates])
  have hz := bounds_foldl_from_first Position.z fun node hnode =>
    h node hnode _ (by simp [Position.coordinates])
  exact ⟨⟨hx.isNaN_low, hy.isNaN_low, hz.isNaN_low⟩, hx.isNaN_high, hy.isNaN_high, hz.isNaN_high⟩

/-- A box with its least corner first contains its greatest corner. -/
theorem Cuboid.contains_corner2 {c : Cuboid} (h : (Shape.cuboid c).Settled) (hc : c.IsNumeric) :
    c.contains c.corner2 = true := by
  have hmin : c.minCorner = c.corner1 := congrArg corner1 (sorted_eq_self h)
  have hmax : c.maxCorner = c.corner2 := congrArg corner2 (sorted_eq_self h)
  obtain ⟨-, hx, hy, hz⟩ := h
  obtain ⟨⟨hx₁, hy₁, hz₁⟩, hx₂, hy₂, hz₂⟩ := hc
  simp only [contains, hmin, hmax, Bool.and_eq_true, decide_eq_true_eq]
  exact ⟨⟨⟨⟨⟨hx.le hx₁, le_refl_float hx₂⟩, hy.le hy₁⟩, le_refl_float hy₂⟩, hz.le hz₁⟩,
    le_refl_float hz₂⟩

/-- And its least corner. -/
theorem Cuboid.contains_corner1 {c : Cuboid} (h : (Shape.cuboid c).Settled) (hc : c.IsNumeric) :
    c.contains c.corner1 = true := by
  have hmin : c.minCorner = c.corner1 := congrArg corner1 (sorted_eq_self h)
  have hmax : c.maxCorner = c.corner2 := congrArg corner2 (sorted_eq_self h)
  obtain ⟨-, hx, hy, hz⟩ := h
  obtain ⟨⟨hx₁, hy₁, hz₁⟩, -⟩ := hc
  simp only [contains, hmin, hmax, Bool.and_eq_true, decide_eq_true_eq]
  exact ⟨⟨⟨⟨⟨le_refl_float hx₁, hx.le hx₁⟩, le_refl_float hy₁⟩, hy.le hy₁⟩, le_refl_float hz₁⟩,
    hz.le hz₁⟩

theorem mem_of_mem_ringEdges {vertices : List Position} {edge : Position × Position}
    (h : edge ∈ ringEdges vertices) : edge.1 ∈ vertices ∧ edge.2 ∈ vertices := by
  rw [ringEdges] at h
  split at h
  · rename_i last hlast
    obtain ⟨hleft, hright⟩ := List.of_mem_zip h
    refine ⟨hleft, ?_⟩
    rcases List.mem_cons.mp hright with heq | hmem
    · rw [heq]
      exact List.mem_of_getLast? hlast
    · exact hmem
  · cases h

/-- **A ring contains no point that is not below any of its vertices:** no edge passes it by. -/
theorem ringContains_eq_false {vertices : List Position} {p : Position}
    (h : ∀ v ∈ vertices, ¬ p.z < v.z) : ringContains vertices p = false := by
  have hnone : (ringEdges vertices).countP (crosses p) = 0 := by
    rw [List.countP_eq_zero]
    intro edge hedge
    obtain ⟨hfirst, hsecond⟩ := mem_of_mem_ringEdges hedge
    simp [crosses, h _ hfirst, h _ hsecond]
  rw [ringContains, hnone]
  simp

/-! ### The single point at the origin -/

namespace Shape

/-- The single point at the origin of the coordinates. -/
def AtOrigin : Shape → Prop
  | cuboid c => ∀ x ∈ (cuboid c).coordinates, (0 == x) = true
  | _ => False

/-- The empty shape contains the points whose coordinates are all zero. -/
theorem contains_empty_iff {p : Position} :
    Shape.empty.contains p = true ↔ ∀ x ∈ p.coordinates, (0 == x) = true := by
  simp only [empty, contains, Cuboid.contains, Cuboid.minCorner, Cuboid.maxCorner, Position.origin,
    lesser_self, greater_self, Bool.and_eq_true, decide_eq_true_eq, Position.coordinates,
    List.forall_mem_cons, ← le_and_le_iff_beq]
  simp [and_assoc]

/-- Corners of the same rank bound the same points. -/
theorem AtOrigin.contains_eq {c : Cuboid} (h : (cuboid c).AtOrigin) (p : Position) :
    c.contains p = Shape.empty.contains p := by
  simp only [AtOrigin, coordinates, Position.coordinates, List.forall_mem_append,
    List.forall_mem_cons] at h
  obtain ⟨⟨hx, hy, hz, -⟩, hx', hy', hz', -⟩ := h
  have hlesser : ∀ {x y : Float}, (0 == x) = true → (0 == y) = true →
      rank? (lesser x y) = rank? 0 := fun hx hy =>
    lesser_cases (rank? · = rank? 0) (rank?_eq_of_beq hx).symm (rank?_eq_of_beq hy).symm
  have hgreater : ∀ {x y : Float}, (0 == x) = true → (0 == y) = true →
      rank? (greater x y) = rank? 0 := fun hx hy =>
    greater_cases (rank? · = rank? 0) (rank?_eq_of_beq hx).symm (rank?_eq_of_beq hy).symm
  simp only [empty, contains, Cuboid.contains, Cuboid.minCorner, Cuboid.maxCorner, Position.origin,
    lesser_self, greater_self, le_congr (hlesser hx hx') rfl, le_congr rfl (hgreater hx hx'),
    le_congr (hlesser hy hy') rfl, le_congr rfl (hgreater hy hy'), le_congr (hlesser hz hz') rfl,
    le_congr rfl (hgreater hz hz')]

/-- A box is the single point at the origin just if it contains what the empty shape contains. -/
theorem atOrigin_iff {c : Cuboid} (h : (cuboid c).Settled) (hc : c.IsNumeric) :
    (∀ p, Shape.empty.contains p = c.contains p) ↔ (cuboid c).AtOrigin := by
  refine ⟨fun hsame => ?_, fun horigin p => (horigin.contains_eq p).symm⟩
  have hfirst := contains_empty_iff.mp ((hsame c.corner1).trans (Cuboid.contains_corner1 h hc))
  have hsecond := contains_empty_iff.mp ((hsame c.corner2).trans (Cuboid.contains_corner2 h hc))
  exact List.forall_mem_append.mpr ⟨hfirst, hsecond⟩

/-! ### What the nodes make -/

/-- What the nodes of a shape make in a mode, as it is read from a store. -/
def rereadAs (mode : SelectionMode) (s : Shape) : Shape :=
  (StoredGeometry.ofSelection (SelectionPayload.ofSelection mode s.nodes)).shape

section Reread

variable {mode : SelectionMode} {s : Shape}

theorem rereadAs_of_ok {t : Shape} (h : mode.shapeOf s.nodes none = .ok t) :
    s.rereadAs mode = t := by
  have hmode := SelectionPayload.selectionMode_ofSelection mode s.nodes
  have hnodes : (SelectionPayload.ofSelection mode s.nodes).nodes = s.nodes := rfl
  simp only [rereadAs, StoredGeometry.ofSelection, hmode, hnodes, h]

/-- Nodes that make no shape count as the empty one. -/
theorem rereadAs_of_error {failure : SelectionError}
    (h : mode.shapeOf s.nodes none = .error failure) : s.rereadAs mode = .empty := by
  have hmode := SelectionPayload.selectionMode_ofSelection mode s.nodes
  have hnodes : (SelectionPayload.ofSelection mode s.nodes).nodes = s.nodes := rfl
  simp only [rereadAs, StoredGeometry.ofSelection, hmode, hnodes, h]

end Reread

/-- What came out of a selection can be made again. -/
theorem rebuildable_of_shapeOf {mode : SelectionMode} {nodes : List Position} {s : Shape}
    (h : mode.shapeOf nodes none = .ok s) (hnumbers : ∀ x ∈ s.coordinates, x.isNaN = false) :
    s.Rebuildable := by
  have hsettled := settled_of_shapeOf h
  cases nodes with
  | nil => cases h
  | cons first rest =>
    rw [SelectionMode.shapeOf] at h
    split at h
    · cases h
    rename_i henough
    split at h
    · cases h
    rename_i hone
    cases mode with
    | cuboid =>
      obtain rfl := Except.ok.inj h
      trivial
    | polygon =>
      obtain rfl := Except.ok.inj h
      refine ⟨?_, ⟨first.world, fun v hv => ?_⟩, hsettled.1.le (hnumbers _ List.mem_cons_self)⟩
      · rw [List.length_map]
        exact Nat.not_lt.mp henough
      · obtain ⟨node, -, rfl⟩ := List.mem_map.mp hv
        rfl

/-- **The nodes of a prism make a box around it,** with a corner that is not in the prism. -/
theorem exists_rereadAs_cuboid {s : PolygonPrism} (h : (polygonPrism s).Rebuildable)
    (hnumbers : ∀ x ∈ (polygonPrism s).coordinates, x.isNaN = false) :
    ∃ p, ((polygonPrism s).rereadAs .cuboid).contains p = true ∧ s.contains p = false := by
  have hseen : SeenAs (polygonPrism s).nodes s.vertices :=
    (seenAs_raiseLast _ _).trans (seenAs_map_withY _ _)
  have hnodes := forall_coordinates_nodes h hnumbers
  obtain ⟨hlen, ⟨world, hworld⟩, -⟩ := h
  have hlength := hseen.length_eq
  rcases hcons : (polygonPrism s).nodes with _ | ⟨first, rest⟩
  · rw [hcons, List.length_nil] at hlength
    omega
  rw [hcons] at hseen hnodes hlength
  have hone : ∀ node ∈ first :: rest, node.world = world :=
    (hseen.forall_iff (f := Position.world) (fun _ _ => rfl) (P := (· = world))).mpr hworld
  have hrest : rest ≠ [] := by
    rintro rfl
    rw [List.length_singleton] at hlength
    omega
  have hmade := shapeOf_cuboid_cons hrest fun node hnode =>
    (hone node hnode).trans (hone first List.mem_cons_self).symm
  have hz : ∀ node ∈ first :: rest, node.z.isNaN = false :=
    fun node hnode => hnodes node hnode _ (by simp [Position.coordinates])
  let box := boundingCuboid first (first :: rest) (verticalRange (first :: rest)).1
    (verticalRange (first :: rest)).2
  have hbox : (polygonPrism s).rereadAs .cuboid = .cuboid box := rereadAs_of_ok (hcons ▸ hmade)
  have hhighest : ∀ v ∈ s.vertices, ¬ box.corner2.z < v.z :=
    (hseen.forall_iff (f := Position.z) (fun _ _ => rfl) (P := fun z => ¬ box.corner2.z < z)).mp
      fun node hnode => not_lt_of_le_float
        ((bounds_foldl_from_first Position.z hz).between _ (List.mem_map_of_mem hnode)).2
  refine ⟨box.corner2, ?_, ?_⟩
  · rw [hbox]
    exact Cuboid.contains_corner2 (settled_of_shapeOf hmade) (isNumeric_boundingCuboid hnodes)
  · rw [PolygonPrism.contains, ringContains_eq_false hhighest, Bool.and_false]

/-- **When a shape is the same after it was stored.** -/
theorem contains_rereadAs_iff {mode₀ : SelectionMode} {nodes : List Position} {s : Shape}
    (hmade : mode₀.shapeOf nodes none = .ok s) (hnumbers : ∀ x ∈ s.coordinates, x.isNaN = false)
    (mode : SelectionMode) :
    (∀ p, (s.rereadAs mode).contains p = s.contains p) ↔ mode = .ofShape s ∨ s.AtOrigin := by
  have hsettled := settled_of_shapeOf hmade
  have hrebuildable := rebuildable_of_shapeOf hmade hnumbers
  by_cases hmode : mode = .ofShape s
  · obtain ⟨rebuilt, hshape, -, hexact⟩ := exists_rebuilt hrebuildable hnumbers
    have hsame : s.rereadAs mode = s := (rereadAs_of_ok (hmode ▸ hshape)).trans (hexact hsettled)
    exact iff_of_true (fun p => by rw [hsame]) (.inl hmode)
  rw [or_iff_right hmode]
  cases s with
  | cuboid c =>
    obtain rfl : mode = .polygon := by
      cases mode with
      | cuboid => exact absurd rfl hmode
      | polygon => rfl
    have hempty : (cuboid c).rereadAs .polygon = .empty := rereadAs_of_error rfl
    rw [hempty]
    exact atOrigin_iff hsettled (isNumeric_of_coordinates hnumbers)
  | polygonPrism s =>
    obtain rfl : mode = .cuboid := by
      cases mode with
      | cuboid => rfl
      | polygon => exact absurd rfl hmode
    obtain ⟨p, hbox, hprism⟩ := exists_rereadAs_cuboid hrebuildable hnumbers
    refine iff_of_false (fun hsame => ?_) id
    have hboth := (hsame p).symm.trans hbox
    rw [show (polygonPrism s).contains p = s.contains p from rfl, hprism] at hboth
    cases hboth
  | flatPolygon s => exact hsettled.elim
  | cylinder s => exact hsettled.elim
  | world s => exact hsettled.elim

end Shape

end RegionPolicy
