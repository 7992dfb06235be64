import Mathlib.Algebra.Group.Nat.Even
import RegionPolicy.Proofs.Misreading
import RegionPolicy.Proofs.Rings

/-!
# Polygons and the boxes around them

An edge that a ray crosses has one end above the ray and one that is not, so what is inside a ring
lies between its least and its greatest `z`. In `x` this need not be so. A ray is cast towards
greater `x`, and where it meets an edge is computed: a small number is added to the rise of the
edge, so that on an edge that falls the place is moved on towards its lower end, and close to that
end beyond it.

All edges have both ends on one side of a point that lies beside the ring. If each is met on that
side too, the ray crosses none of them, or all that have an end on either side of it, and these are
even in number, since going around a ring one comes back to the side from which one started. So a
point beside the ring is inside just if an odd number of edges is met on its other side. That is the
only way in which a polygon reaches beyond its box.

## Main definitions

* `straddles` — an edge has ends on both sides of a ray; `meetingX` — where it is met.
* `misplaced` — both ends of an edge lie on one side of a point, and it is met on the other.
* `Extent.Covers` — a point lies within an extent.
* `Shape.LeaksAt` — a polygon contains a point beside its ring.

## Main results

* `even_countP_straddles` — an even number of edges has ends on both sides of a ray.
* `Extent.covers_foldl` — the extent of a ring covers its vertices.
* `odd_countP_crosses_iff` — when a point beside a ring is inside.
* `Shape.between_of_contains_iff` — when a polygon stays within its box.
-/

namespace RegionPolicy

variable {p : Position} {vertices : List Position}

/-! ### Edges on both sides of a ray -/

/-- Whether one end of an edge is above a ray from the point, and the other is not. -/
def straddles (p : Position) (edge : Position × Position) : Bool :=
  decide (p.z < edge.1.z) != decide (p.z < edge.2.z)

/-- The `x` at which a line through the point is taken to meet an edge. -/
def meetingX (p : Position) (edge : Position × Position) : Float :=
  (edge.2.x - edge.1.x) * (p.z - edge.1.z) / (edge.2.z - edge.1.z + edgeEpsilon) + edge.1.x

theorem crosses_eq (p : Position) (edge : Position × Position) :
    crosses p edge = (straddles p edge && p.x < meetingX p edge) := rfl

/-- The number of times a path changes sides is odd just if it ends on the other side. -/
theorem odd_countP_pathEdges_iff (p start : Position) (l : List Position) :
    Odd ((pathEdges start l).countP (straddles p)) ↔
      decide (p.z < start.z) ≠ decide (p.z < (l.getLastD start).z) := by
  induction l generalizing start with
  | nil => simp [pathEdges]
  | cons v rest ih =>
    rw [pathEdges, List.countP_cons, List.getLastD_cons]
    by_cases hside : decide (p.z < v.z) = decide (p.z < start.z)
    · have hstays : straddles p (v, start) = false := by simp [straddles, hside]
      rw [hstays, if_neg Bool.false_ne_true, Nat.add_zero, ih v, hside]
    · have hchanges : straddles p (v, start) = true := bne_iff_ne.mpr hside
      rw [hchanges, if_pos rfl, Nat.odd_add_one, ih v, not_not]
      revert hside
      cases decide (p.z < v.z) <;> cases decide (p.z < start.z) <;>
        cases decide (p.z < (rest.getLastD v).z) <;> decide

/-- **Going around a ring one changes sides an even number of times.** -/
theorem even_countP_straddles (p : Position) (vertices : List Position) :
    Even ((ringEdges vertices).countP (straddles p)) := by
  rw [ringEdges_eq_pathEdges vertices p, ← Nat.not_odd_iff_even, odd_countP_pathEdges_iff, not_not]
  cases vertices with
  | nil => rfl
  | cons v rest => rw [List.getLastD_cons, List.getLastD_cons]

/-! ### Points beside a ring -/

/-- Whether both ends of an edge lie on one side of a point in `x`, and it is met on the other. -/
def misplaced (p : Position) (edge : Position × Position) : Bool :=
  straddles p edge &&
    (p.x < edge.1.x && p.x < edge.2.x && !decide (p.x < meetingX p edge) ||
      edge.1.x < p.x && edge.2.x < p.x && decide (p.x < meetingX p edge))

/-- Where all vertices are on the far side, the ray crosses all edges with ends on both sides of it
but those that are misplaced. -/
theorem odd_countP_crosses_iff_of_lt (h : ∀ v ∈ vertices, p.x < v.x) :
    Odd ((ringEdges vertices).countP (crosses p)) ↔
      Odd ((ringEdges vertices).countP (misplaced p)) := by
  have hsplit : (ringEdges vertices).countP (straddles p) =
      (ringEdges vertices).countP (crosses p) + (ringEdges vertices).countP (misplaced p) := by
    rw [List.countP_eq_countP_filter_add _ (straddles p) (crosses p), List.countP_filter,
      List.countP_filter]
    refine congrArg₂ (· + ·) (List.countP_congr fun edge _ => ?_)
      (List.countP_congr fun edge hedge => ?_)
    · simp [crosses_eq]
    · obtain ⟨hfirst, hsecond⟩ := mem_of_mem_ringEdges hedge
      simp +contextual [crosses_eq, misplaced, h _ hfirst, h _ hsecond, lt_asymm_float (h _ hfirst)]
  have heven := even_countP_straddles p vertices
  rw [hsplit] at heven
  exact Nat.even_add'.mp heven

/-- Where all vertices are on the near side, the ray crosses the misplaced edges only. -/
theorem countP_crosses_of_lt (h : ∀ v ∈ vertices, v.x < p.x) :
    (ringEdges vertices).countP (crosses p) = (ringEdges vertices).countP (misplaced p) := by
  refine List.countP_congr fun edge hedge => ?_
  obtain ⟨hfirst, hsecond⟩ := mem_of_mem_ringEdges hedge
  simp [crosses_eq, misplaced, h _ hfirst, h _ hsecond, lt_asymm_float (h _ hfirst)]

/-- **When a point beside a ring is inside:** just if it sees an odd number of edges misplaced. -/
theorem odd_countP_crosses_iff
    (h : (∀ v ∈ vertices, p.x < v.x) ∨ ∀ v ∈ vertices, v.x < p.x) :
    Odd ((ringEdges vertices).countP (crosses p)) ↔
      Odd ((ringEdges vertices).countP (misplaced p)) := by
  rcases h with hfar | hnear
  · exact odd_countP_crosses_iff_of_lt hfar
  · rw [countP_crosses_of_lt hnear]

theorem ringContains_iff :
    ringContains vertices p = true ↔
      3 ≤ vertices.length ∧ Odd ((ringEdges vertices).countP (crosses p)) := by
  rw [ringContains, Bool.and_eq_true, decide_eq_true_eq, beq_iff_eq, Nat.odd_iff]

/-- A ring that contains a point has a vertex above it and one that is not. -/
theorem exists_vertices_of_ringContains (h : ringContains vertices p = true) :
    ∃ v ∈ vertices, ∃ w ∈ vertices, p.z < v.z ∧ ¬ p.z < w.z := by
  obtain ⟨edge, hedge, hcrossed⟩ := List.countP_pos_iff.mp (ringContains_iff.mp h).2.pos
  obtain ⟨hfirst, hsecond⟩ := mem_of_mem_ringEdges hedge
  rw [crosses_eq, Bool.and_eq_true, straddles, bne_iff_ne] at hcrossed
  by_cases hside : p.z < edge.1.z
  · exact ⟨_, hfirst, _, hsecond, hside, fun hother => hcrossed.1 (by simp [hside, hother])⟩
  · exact ⟨_, hsecond, _, hfirst, by simpa [hside] using hcrossed.1, hside⟩

/-! ### Extents -/

namespace Extent

variable {e : Extent} {q : Position} {rest : List Position}

/-- A point lies between the least and the greatest horizontal coordinates. -/
structure Covers (e : Extent) (p : Position) : Prop where
  minX : e.minX ≤ p.x
  maxX : p.x ≤ e.maxX
  minZ : e.minZ ≤ p.z
  maxZ : p.z ≤ e.maxZ

/-- An extent that is widened to a point covers it, and whatever it covered before. -/
theorem Covers.widen (h : e.Covers p) (hx : q.x.isNaN = false) (hz : q.z.isNaN = false) :
    (e.widen q).Covers p ∧ (e.widen q).Covers q :=
  ⟨⟨lesser_le_of_le_left h.minX hx, le_greater_of_le_left h.maxX hx,
      lesser_le_of_le_left h.minZ hz, le_greater_of_le_left h.maxZ hz⟩,
    lesser_le_right (isNaN_of_le_left h.minX) hx, le_greater_right (isNaN_of_le_right h.maxX) hx,
    lesser_le_right (isNaN_of_le_left h.minZ) hz, le_greater_right (isNaN_of_le_right h.maxZ) hz⟩

/-- **An extent that is widened to some points covers all of them.** -/
theorem covers_foldl (h : e.Covers p)
    (hrest : ∀ q ∈ rest, q.x.isNaN = false ∧ q.z.isNaN = false) :
    ∀ q ∈ p :: rest, (rest.foldl widen e).Covers q := by
  induction rest generalizing e p with
  | nil => exact List.forall_mem_singleton.mpr h
  | cons next rest ih =>
    obtain ⟨hnext, hrest⟩ := List.forall_mem_cons.mp hrest
    obtain ⟨hkept, hadded⟩ := h.widen hnext.1 hnext.2
    exact List.forall_mem_cons.mpr
      ⟨(List.forall_mem_cons.mp (ih hkept hrest)).1, ih hadded hrest⟩

end Extent

/-- The extent of a ring covers its vertices. -/
theorem exists_ringExtent? (hne : vertices ≠ [])
    (hnumbers : ∀ v ∈ vertices, v.x.isNaN = false ∧ v.z.isNaN = false) :
    ∃ e, ringExtent? vertices = some e ∧ ∀ v ∈ vertices, e.Covers v := by
  obtain ⟨v, rest, rfl⟩ := List.exists_cons_of_ne_nil hne
  obtain ⟨⟨hx, hz⟩, hrest⟩ := List.forall_mem_cons.mp hnumbers
  exact ⟨_, rfl, Extent.covers_foldl
    ⟨le_refl_float hx, le_refl_float hx, le_refl_float hz, le_refl_float hz⟩ hrest⟩

/-! ### Polygons -/

/-- A point lies between two corners in all coordinates. -/
structure Position.Between (p low high : Position) : Prop where
  x : low.x ≤ p.x ∧ p.x ≤ high.x
  y : low.y ≤ p.y ∧ p.y ≤ high.y
  z : low.z ≤ p.z ∧ p.z ≤ high.z

namespace Shape

/-- The ring of a polygon; other shapes have none. -/
def ring? : Shape → Option (List Position)
  | polygonPrism s => some s.vertices
  | flatPolygon s => some s.vertices
  | _ => none

/-- A polygon contains a point beside its ring: the point is not above or below the polygon, and
sees an odd number of edges misplaced. -/
structure LeaksAt (s : Shape) (vertices : List Position) (p : Position) : Prop where
  enough : 3 ≤ vertices.length
  level : s.minCorner.y ≤ p.y ∧ p.y ≤ s.maxCorner.y
  beside : ¬ (s.minCorner.x ≤ p.x ∧ p.x ≤ s.maxCorner.x)
  odd : Odd ((ringEdges vertices).countP (misplaced p))

section Polygon

variable {s : Shape} (hring : s.ring? = some vertices)
  (hnumbers : ∀ x ∈ s.coordinates, x.isNaN = false) (hp : ∀ x ∈ p.coordinates, x.isNaN = false)

include hring in
/-- The horizontal coordinates of a polygon's box are those of the extent of its ring. -/
theorem corners_of_ring? {e : Extent} (he : ringExtent? vertices = some e) :
    (s.minCorner.x = e.minX ∧ s.minCorner.z = e.minZ) ∧
      s.maxCorner.x = e.maxX ∧ s.maxCorner.z = e.maxZ := by
  cases s with
  | polygonPrism s =>
    obtain rfl := Option.some.inj hring
    simp [minCorner, maxCorner, ringMinCorner, ringMaxCorner, he]
  | flatPolygon s =>
    obtain rfl := Option.some.inj hring
    simp [minCorner, maxCorner, ringMinCorner, ringMaxCorner, he]
  | cuboid s => cases hring
  | cylinder s => cases hring
  | world s => cases hring

include hring hnumbers in
theorem isNaN_vertices : ∀ v ∈ vertices, v.x.isNaN = false ∧ v.z.isNaN = false := by
  have hall : ∀ v ∈ vertices, ∀ x ∈ v.coordinates, x ∈ s.coordinates := by
    intro v hv x hx
    cases s with
    | polygonPrism s =>
      obtain rfl := Option.some.inj hring
      exact .tail _ (.tail _ (List.mem_flatMap.mpr ⟨v, hv, hx⟩))
    | flatPolygon s =>
      obtain rfl := Option.some.inj hring
      exact .tail _ (List.mem_flatMap.mpr ⟨v, hv, hx⟩)
    | cuboid s => cases hring
    | cylinder s => cases hring
    | world s => cases hring
  exact fun v hv => ⟨hnumbers _ (hall v hv _ (by simp [Position.coordinates])),
    hnumbers _ (hall v hv _ (by simp [Position.coordinates]))⟩

include hring hnumbers hp in
/-- A polygon contains what is between its altitudes and inside its ring. -/
theorem contains_iff_of_ring? :
    s.contains p = true ↔ (s.minCorner.y ≤ p.y ∧ p.y ≤ s.maxCorner.y) ∧
      ringContains vertices p = true := by
  have hy : p.y.isNaN = false := hp _ (by simp [Position.coordinates])
  cases s with
  | polygonPrism s =>
    obtain rfl := Option.some.inj hring
    have hmin : s.minY.isNaN = false := hnumbers _ (by simp [coordinates])
    have hmax : s.maxY.isNaN = false := hnumbers _ (by simp [coordinates])
    rcases eq_or_ne s.vertices [] with hnil | hne
    · simp [contains, PolygonPrism.contains, hnil, ringContains]
    · rw [minCorner_y_polygonPrism hne, maxCorner_y_polygonPrism hne,
        ← not_lt_iff_le_float hy hmin, ← not_lt_iff_le_float hmax hy]
      simp [contains, PolygonPrism.contains]
  | flatPolygon s =>
    obtain rfl := Option.some.inj hring
    rcases eq_or_ne s.vertices [] with hnil | hne
    · simp [contains, FlatPolygon.contains, hnil, ringContains]
    · rw [minCorner, maxCorner, ringMinCorner_y hne, ringMaxCorner_y hne,
        and_comm (a := s.y ≤ p.y), le_and_le_iff_beq]
      simp [contains, FlatPolygon.contains]
  | cuboid s => cases hring
  | cylinder s => cases hring
  | world s => cases hring

include hring hnumbers hp in
/-- All vertices lie on one side of a point that is beside the box. -/
theorem vertices_beside (hbeside : ¬ (s.minCorner.x ≤ p.x ∧ p.x ≤ s.maxCorner.x)) :
    (∀ v ∈ vertices, p.x < v.x) ∨ ∀ v ∈ vertices, v.x < p.x := by
  rcases eq_or_ne vertices [] with rfl | hne
  · exact .inl (List.forall_mem_nil _)
  have hx : p.x.isNaN = false := hp _ (by simp [Position.coordinates])
  obtain ⟨e, he, hcovers⟩ := exists_ringExtent? hne (isNaN_vertices hring hnumbers)
  obtain ⟨⟨hminX, -⟩, hmaxX, -⟩ := corners_of_ring? hring he
  rw [hminX, hmaxX, not_and_or] at hbeside
  refine hbeside.imp (fun hfar v hv => ?_) fun hnear v hv => ?_
  · have hmin := (hcovers v hv).minX
    rw [← not_lt_iff_le_float hx (isNaN_of_le_left hmin), not_not] at hfar
    exact lt_of_lt_of_le_float hfar hmin
  · have hmax := (hcovers v hv).maxX
    rw [← not_lt_iff_le_float (isNaN_of_le_right hmax) hx, not_not] at hnear
    exact lt_of_le_of_lt_float hmax hnear

include hring hnumbers hp in
/-- What is inside a ring lies between its least and its greatest `z`. -/
theorem between_z_of_ringContains (h : ringContains vertices p = true) :
    s.minCorner.z ≤ p.z ∧ p.z ≤ s.maxCorner.z := by
  have hz : p.z.isNaN = false := hp _ (by simp [Position.coordinates])
  have hvertices := isNaN_vertices hring hnumbers
  obtain ⟨v, hv, w, hw, habove, hbelow⟩ := exists_vertices_of_ringContains h
  obtain ⟨e, he, hcovers⟩ := exists_ringExtent? (List.ne_nil_of_mem hv) hvertices
  obtain ⟨⟨-, hminZ⟩, -, hmaxZ⟩ := corners_of_ring? hring he
  rw [hminZ, hmaxZ]
  rw [not_lt_iff_le_float hz (hvertices w hw).2] at hbelow
  exact ⟨le_trans_float (hcovers w hw).minZ hbelow,
    le_iff_lt_or_beq.mpr (.inl (lt_of_lt_of_le_float habove (hcovers v hv).maxZ))⟩

include hring hnumbers hp in
/-- **When a polygon contains a point beside its ring.** -/
theorem leaksAt_iff :
    s.LeaksAt vertices p ↔
      s.contains p = true ∧ ¬ (s.minCorner.x ≤ p.x ∧ p.x ≤ s.maxCorner.x) := by
  rw [contains_iff_of_ring? hring hnumbers hp, ringContains_iff]
  constructor
  · rintro ⟨henough, hlevel, hbeside, hodd⟩
    have hside := vertices_beside hring hnumbers hp hbeside
    exact ⟨⟨hlevel, henough, (odd_countP_crosses_iff hside).mpr hodd⟩, hbeside⟩
  · rintro ⟨⟨hlevel, henough, hodd⟩, hbeside⟩
    have hside := vertices_beside hring hnumbers hp hbeside
    exact ⟨henough, hlevel, hbeside, (odd_countP_crosses_iff hside).mp hodd⟩

include hring hnumbers hp in
/-- **When a polygon stays within its box.** Let all coordinates be numbers. What a polygon contains
is never above or below its box, and never before or behind it in `z`. It is not beside it in `x`
either, unless the polygon leaks there: then the point is contained, though it lies beside all
vertices, since it sees an odd number of edges misplaced. -/
theorem between_of_contains_iff :
    (s.contains p = true → (s.minCorner.y ≤ p.y ∧ p.y ≤ s.maxCorner.y) ∧
        s.minCorner.z ≤ p.z ∧ p.z ≤ s.maxCorner.z) ∧
      ((s.contains p = true → p.Between s.minCorner s.maxCorner) ↔ ¬ s.LeaksAt vertices p) := by
  have hupright : s.contains p = true → (s.minCorner.y ≤ p.y ∧ p.y ≤ s.maxCorner.y) ∧
      s.minCorner.z ≤ p.z ∧ p.z ≤ s.maxCorner.z := by
    intro hcontains
    obtain ⟨hlevel, hinside⟩ := (contains_iff_of_ring? hring hnumbers hp).mp hcontains
    exact ⟨hlevel, between_z_of_ringContains hring hnumbers hp hinside⟩
  refine ⟨hupright, ?_⟩
  rw [leaksAt_iff hring hnumbers hp, not_and, not_not]
  refine forall_congr' fun hcontains => ?_
  obtain ⟨hy, hz⟩ := hupright hcontains
  exact ⟨fun hbetween => hbetween.x, fun hx => ⟨hx, hy, hz⟩⟩

end Polygon

/-! ### A point inside a triangle, and one beside it -/

/-- A prism over the triangle. -/
def trianglePrism : Shape := .polygonPrism ⟨0, 64, triangle⟩

/-- A point inside the triangle lies within the box of the prism over it. -/
theorem between_of_contains_iff_triangle :
    let p : Position := ⟨"world", 2, 5, 2⟩
    trianglePrism.ring? = some triangle ∧
      (∀ x ∈ trianglePrism.coordinates, x.isNaN = false) ∧ (∀ x ∈ p.coordinates, x.isNaN = false) ∧
      trianglePrism.contains p = true ∧
      p.Between trianglePrism.minCorner trianglePrism.maxCorner := by
  intro p
  have hring : trianglePrism.ring? = some triangle := rfl
  have hnumbers : ∀ x ∈ trianglePrism.coordinates, x.isNaN = false := by decide +kernel
  have hp : ∀ x ∈ p.coordinates, x.isNaN = false := by decide +kernel
  have hcontains : trianglePrism.contains p = true := by decide +kernel
  have hx : trianglePrism.minCorner.x ≤ p.x ∧ p.x ≤ trianglePrism.maxCorner.x := by decide +kernel
  have hiff := (between_of_contains_iff hring hnumbers hp).2
  exact ⟨hring, hnumbers, hp, hcontains, hiff.mpr (fun hleaks => hleaks.beside hx) hcontains⟩

/-- **The prism contains a point beside it,** level with its lower edge: the edge that falls to the
corner at `x = 10` is met behind that corner. The flat polygon contains it too. -/
theorem contains_beside_triangle :
    let p : Position := ⟨"world", 10.00000005, 5, 0⟩
    (∀ x ∈ trianglePrism.coordinates ++ p.coordinates, isFinite x = true) ∧
      trianglePrism.contains p = true ∧ trianglePrism.maxCorner.x < p.x ∧
      (Shape.flatPolygon ⟨5, triangle⟩).contains p = true ∧
      (Shape.flatPolygon ⟨5, triangle⟩).maxCorner.x < p.x := by
  decide +kernel

end Shape

end RegionPolicy
