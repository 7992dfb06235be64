import Mathlib.Data.List.Rotate
import RegionPolicy.Geometry.Shape

/-!
# Rings drawn in another way

A ring is drawn from vertex to vertex and back to the first. It can be drawn from another vertex
on, a vertex can be set several times in a row, and the first vertex can be set once more at the
end. None of this changes what is inside: the edges are the same, though they come up in another
order, and besides them there are only edges from a vertex to itself, which no ray crosses.

Nothing is said here about where a ray crosses an edge. What counts is that it crosses edges one by
one, whatever their order, and none whose ends are the same.

## Main definitions

* `pathEdges` — the edges of a path that goes on from a vertex.
* `Retraces` — one ring is another one drawn in another way.

## Main results

* `ringEdges_append_comm` — the edges do not depend on where a ring starts.
* `ringEdges_append_replicate` — what a vertex that is set several times adds.
* `Retraces.countP_crosses` — a ray crosses both rings equally often.
* `contains_of_retraces` — polygons over both rings contain the same points.
-/

namespace RegionPolicy

/-! ### Paths -/

/-- The edges of a path that goes on from a vertex: each vertex with the one before it. -/
def pathEdges (start : Position) : List Position → List (Position × Position)
  | [] => []
  | v :: rest => (v, start) :: pathEdges v rest

theorem zip_cons_eq_pathEdges (start : Position) (l : List Position) :
    l.zip (start :: l) = pathEdges start l := by
  induction l generalizing start with
  | nil => rfl
  | cons v rest ih => rw [List.zip_cons_cons, ih, pathEdges]

/-- A ring is a path that goes on from its last vertex. -/
theorem ringEdges_eq_pathEdges (vertices : List Position) (v : Position) :
    ringEdges vertices = pathEdges (vertices.getLastD v) vertices := by
  rw [ringEdges, List.getLastD_eq_getLast?]
  cases hlast : vertices.getLast? with
  | none => rw [List.getLast?_eq_none_iff.mp hlast, pathEdges]
  | some last => exact zip_cons_eq_pathEdges last vertices

/-- A path goes on from where it was left. -/
theorem pathEdges_append (start : Position) (l m : List Position) :
    pathEdges start (l ++ m) = pathEdges start l ++ pathEdges (l.getLastD start) m := by
  induction l generalizing start with
  | nil => rfl
  | cons v rest ih => rw [List.cons_append, pathEdges, pathEdges, ih, List.getLastD_cons,
      List.cons_append]

/-- A path that stays at a vertex. -/
theorem pathEdges_replicate (v : Position) (n : Nat) :
    pathEdges v (List.replicate n v) = List.replicate n (v, v) := by
  induction n with
  | zero => rfl
  | succ n ih => rw [List.replicate_succ, List.replicate_succ, pathEdges, ih]

/-! ### Where a path ends -/

theorem getLastD_append (l m : List Position) (v : Position) :
    (l ++ m).getLastD v = m.getLastD (l.getLastD v) := by
  induction l generalizing v with
  | nil => rfl
  | cons w rest ih => rw [List.cons_append, List.getLastD_cons, List.getLastD_cons, ih]

theorem getLastD_replicate (v : Position) (n : Nat) : (List.replicate n v).getLastD v = v := by
  induction n with
  | zero => rfl
  | succ n ih => rw [List.replicate_succ, List.getLastD_cons, ih]

/-! ### Where a ring starts -/

/-- **The edges do not depend on where a ring starts,** but for their order. -/
theorem ringEdges_append_comm (l m : List Position) :
    (ringEdges (l ++ m)).Perm (ringEdges (m ++ l)) := by
  cases l with
  | nil => rw [List.append_nil, List.nil_append]
  | cons v l =>
    cases m with
    | nil => rw [List.append_nil, List.nil_append]
    | cons w m =>
      rw [ringEdges_eq_pathEdges _ v, ringEdges_eq_pathEdges _ v, pathEdges_append,
        pathEdges_append, getLastD_append, getLastD_append]
      simp only [List.getLastD_cons]
      exact List.perm_append_comm

theorem ringEdges_rotate_perm (vertices : List Position) (n : Nat) :
    (ringEdges (vertices.rotate n)).Perm (ringEdges vertices) := by
  rw [List.rotate_eq_drop_append_take_mod]
  refine (ringEdges_append_comm _ _).trans ?_
  rw [List.take_append_drop]

/-! ### Vertices that are set several times -/

/-- **What a vertex that is set several times adds:** edges from the vertex to itself. -/
theorem ringEdges_append_replicate (l m : List Position) (v : Position) (n : Nat) :
    (ringEdges (l ++ v :: (List.replicate n v ++ m))).Perm
      (List.replicate n (v, v) ++ ringEdges (l ++ v :: m)) := by
  rw [List.append_cons l v (List.replicate n v ++ m), List.append_cons l v m,
    ringEdges_eq_pathEdges _ v, ringEdges_eq_pathEdges _ v]
  generalize hpath : l ++ [v] = path
  have hend : ∀ w, path.getLastD w = v := by
    intro w
    rw [← hpath, getLastD_append, List.getLastD_cons, List.getLastD_nil]
  simp only [pathEdges_append, pathEdges_replicate, getLastD_append, getLastD_replicate, hend]
  exact List.perm_append_comm_assoc _ _ _

/-- No ray crosses an edge from a vertex to itself. -/
theorem crosses_self (p v : Position) : crosses p (v, v) = false := by
  simp [crosses]

/-! ### The same ring, drawn in another way -/

/-- A ring is another one drawn in another way. -/
inductive Retraces : List Position → List Position → Prop where
  /-- It starts at another vertex. -/
  | rotate (vertices : List Position) (n : Nat) : Retraces vertices (vertices.rotate n)
  /-- A vertex is set again, right after it, any number of times. -/
  | again (l m : List Position) (v : Position) (n : Nat) :
    Retraces (l ++ v :: m) (l ++ v :: (List.replicate n v ++ m))
  /-- The first vertex is set once more at the end. -/
  | close (v : Position) (rest : List Position) : Retraces (v :: rest) (v :: rest ++ [v])
  /-- Both, one after the other. -/
  | trans {vertices vertices' vertices'' : List Position} (h : Retraces vertices vertices')
    (h' : Retraces vertices' vertices'') : Retraces vertices vertices''

namespace Retraces

variable {vertices vertices' : List Position}

/-- No vertex gets lost. -/
theorem length_le (h : Retraces vertices vertices') : vertices.length ≤ vertices'.length := by
  induction h with
  | rotate vertices n => rw [List.length_rotate]
  | again l m v n =>
    simp only [List.length_append, List.length_cons, List.length_replicate]
    omega
  | close v rest => rw [List.length_append]; exact Nat.le_add_right _ _
  | trans _ _ ih ih' => exact ih.trans ih'

/-- **A ray crosses both rings equally often.** A ring that is closed starts with its first vertex
set twice, when it is drawn from its last vertex on. -/
theorem countP_crosses (h : Retraces vertices vertices') (p : Position) :
    (ringEdges vertices').countP (crosses p) = (ringEdges vertices).countP (crosses p) := by
  have hagain : ∀ (l m : List Position) (v : Position) (n : Nat),
      (ringEdges (l ++ v :: (List.replicate n v ++ m))).countP (crosses p) =
        (ringEdges (l ++ v :: m)).countP (crosses p) := by
    intro l m v n
    rw [(ringEdges_append_replicate l m v n).countP_eq, List.countP_append, List.countP_replicate,
      crosses_self, if_neg Bool.false_ne_true, Nat.zero_add]
  induction h with
  | rotate vertices n => exact (ringEdges_rotate_perm vertices n).countP_eq _
  | again l m v n => exact hagain l m v n
  | close v rest =>
    exact ((ringEdges_append_comm (v :: rest) [v]).countP_eq _).trans (hagain [] rest v 1)
  | trans _ _ ih ih' => exact ih'.trans ih

theorem ringContains_eq (h : Retraces vertices vertices') (hlen : 3 ≤ vertices.length)
    (p : Position) : ringContains vertices' p = ringContains vertices p := by
  rw [ringContains, ringContains, h.countP_crosses p, decide_eq_true hlen,
    decide_eq_true (hlen.trans h.length_le)]

end Retraces

/-- **Polygons do not depend on how their ring is drawn.** A ring of three vertices and more may
start at any of them, have vertices set several times in a row, and be closed or not: the prisms and
the flat polygons over it contain the same points. -/
theorem contains_of_retraces {vertices vertices' : List Position}
    (h : Retraces vertices vertices') (hlen : 3 ≤ vertices.length) (p : Position) :
    (∀ low high, (PolygonPrism.mk low high vertices').contains p =
        (PolygonPrism.mk low high vertices).contains p) ∧
      ∀ y, (FlatPolygon.mk y vertices').contains p = (FlatPolygon.mk y vertices).contains p := by
  have hring := h.ringContains_eq hlen p
  refine ⟨fun low high => ?_, fun y => ?_⟩
  · rw [PolygonPrism.contains, PolygonPrism.contains, hring]
  · rw [FlatPolygon.contains, FlatPolygon.contains, hring]

/-! ### A triangle -/

/-- A triangle, seen from above. -/
def triangle : List Position :=
  [⟨"world", 0, 0, 0⟩, ⟨"world", 10, 0, 0⟩, ⟨"world", 0, 0, 10⟩]

/-- The triangle, drawn from its second corner on, with that corner set twice, and closed. -/
def triangleAgain : List Position :=
  [⟨"world", 10, 0, 0⟩, ⟨"world", 10, 0, 0⟩, ⟨"world", 0, 0, 10⟩, ⟨"world", 0, 0, 0⟩,
    ⟨"world", 10, 0, 0⟩]

theorem retraces_triangle : Retraces triangle triangleAgain :=
  .trans (.rotate triangle 1) (.trans
    (.again [] [⟨"world", 0, 0, 10⟩, ⟨"world", 0, 0, 0⟩] ⟨"world", 10, 0, 0⟩ 1)
    (.close ⟨"world", 10, 0, 0⟩
      [⟨"world", 10, 0, 0⟩, ⟨"world", 0, 0, 10⟩, ⟨"world", 0, 0, 0⟩]))

/-- Drawn in either way it has a point inside, and one of its bounding box outside. -/
theorem contains_of_retraces_triangle :
    Retraces triangle triangleAgain ∧ 3 ≤ triangle.length ∧
      (PolygonPrism.mk 0 64 triangleAgain).contains ⟨"world", 2, 5, 2⟩ = true ∧
      (FlatPolygon.mk 5 triangleAgain).contains ⟨"world", 9, 5, 9⟩ = false := by
  have hlen : 3 ≤ triangle.length := by decide
  refine ⟨retraces_triangle, hlen, ?_, ?_⟩
  · rw [(contains_of_retraces retraces_triangle hlen ⟨"world", 2, 5, 2⟩).1]
    decide +kernel
  · rw [(contains_of_retraces retraces_triangle hlen ⟨"world", 9, 5, 9⟩).2]
    decide +kernel

end RegionPolicy
