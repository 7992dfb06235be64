import RegionPolicy.Payload.Selection
import RegionPolicy.Proofs.JsonText
import RegionPolicy.Proofs.Rebuilding

/-!
# Shapes in a store

A shape is stored as the text of its mode and its nodes. When the text is read again, the mode and
the nodes are those that were written, and the shape that the selection makes of them has the same
extent as the one that was stored. That needs coordinates that are finite, since the others are
written as null, and that are read as they were written.

## Main definitions

* `Position.IsStorable` — a position whose coordinates are finite and read as they were written.

## Main results

* `Position.decode_toJson`, `SelectionPayload.decode_sortedJson` — what is read is what was written.
* `Shape.forall_coordinates_nodes` — nodes have no coordinates but those of their shape.
* `StoredGeometry.parse_render_ofSelection` — the geometry of the text of a selection.
* `StoredGeometry.parse_shape` — the geometry of the text of a shape.
-/

namespace RegionPolicy

open Json

/-! ### Positions -/

/-- A coordinate that is written as a number, and read as the same one. -/
def StorableCoordinate (x : Float) : Prop :=
  isFinite x = true ∧ (Number.float x).ReadsBack

namespace Position

/-- All coordinates of the position can be stored. -/
def IsStorable (p : Position) : Prop :=
  ∀ x ∈ p.coordinates, StorableCoordinate x

/-- Finite coordinates are written as numbers. -/
theorem toJson_of_isFinite {p : Position} (h : ∀ x ∈ p.coordinates, isFinite x = true) :
    p.toJson = .object [("world", .text p.world), ("x", .number (.float p.x)),
      ("y", .number (.float p.y)), ("z", .number (.float p.z))] := by
  have hx : isFinite p.x = true := h p.x (by simp [coordinates])
  have hy : isFinite p.y = true := h p.y (by simp [coordinates])
  have hz : isFinite p.z = true := h p.z (by simp [coordinates])
  simp only [toJson, Value.ofFloat, hx, hy, hz, if_true]

theorem toJson_of_isStorable {p : Position} (h : p.IsStorable) :
    p.toJson = .object [("world", .text p.world), ("x", .number (.float p.x)),
      ("y", .number (.float p.y)), ("z", .number (.float p.z))] :=
  toJson_of_isFinite fun x hx => (h x hx).1

theorem readsBack_toJson {p : Position} (h : p.IsStorable) {depth : Nat}
    (hdepth : depth < maxDepth) : p.toJson.ReadsBack depth := by
  rw [toJson_of_isStorable h]
  exact ⟨hdepth, trivial, (h p.x (by simp [coordinates])).2, (h p.y (by simp [coordinates])).2,
    (h p.z (by simp [coordinates])).2, trivial⟩

/-- The fields of a position are written in the order of their names. -/
theorem toValue?_toJson {p : Position} (h : p.IsStorable) :
    (Document.ofValue p.toJson).toValue? = some p.toJson := by
  rw [toJson_of_isStorable h, Document.toValue?_object]
  · simp only [SortedMap.ofList, List.foldl_cons, List.foldl_nil, SortedMap.insert]
    rfl
  · simp [Document.ofValue, Document.toValue?]

theorem decode_toJson_of_isFinite {p : Position} (h : ∀ x ∈ p.coordinates, isFinite x = true) :
    decode (.ofValue p.toJson) = .ok p := by
  rw [toJson_of_isFinite h]
  rfl

theorem decode_toJson {p : Position} (h : p.IsStorable) : decode (.ofValue p.toJson) = .ok p :=
  decode_toJson_of_isFinite fun x hx => (h x hx).1

end Position

/-! ### Lists of values -/

/-- Items that are decoded one by one are decoded together. -/
theorem decodeList_ofList {α : Type} {decode : Decoder α} {f : α → Value} {l : List α}
    (h : ∀ a ∈ l, decode (.ofValue (f a)) = .ok a) :
    Decoder.list decode (.ofValue (.ofList f l)) = .ok l := by
  show Decoder.items decode (Document.ofItems (l.map f)) = .ok l
  induction l with
  | nil => rfl
  | cons a rest ih =>
    rw [List.map_cons, Document.ofItems, Decoder.items, h a List.mem_cons_self]
    dsimp only
    rw [ih fun b hb => h b (List.mem_cons_of_mem a hb)]

/-! ### Records -/

namespace Json.Fields

variable {α β : Type} {entries : List (Option String × Document)}

theorem fromEntries_field {name : String} {decode : Decoder α} {absent : Option α} {i : Nat}
    {d : Document} {a : α} (hfind : findEntry name entries 0 = some (i, d))
    (hdecode : decode d = .ok a) : (field name decode absent).fromEntries entries = .ok a := by
  simp only [field, hfind, hdecode]

theorem fromEntries_map_iff {fs : Fields α} {f : α → β} {b : β} :
    (f <$> fs).fromEntries entries = .ok b ↔ ∃ a, fs.fromEntries entries = .ok a ∧ f a = b := by
  change (fs.fromEntries entries).map f = .ok b ↔ _
  cases fs.fromEntries entries with
  | error fault => simp [Except.map]
  | ok a => simp [Except.map]

theorem fromEntries_map {fs : Fields α} {a : α} (f : α → β) (h : fs.fromEntries entries = .ok a) :
    (f <$> fs).fromEntries entries = .ok (f a) :=
  fromEntries_map_iff.mpr ⟨a, h, rfl⟩

theorem fromEntries_seq_iff {fs : Fields (α → β)} {gs : Fields α} {b : β} :
    (fs <*> gs).fromEntries entries = .ok b ↔
      ∃ f a, fs.fromEntries entries = .ok f ∧ gs.fromEntries entries = .ok a ∧ f a = b := by
  change (Fields.seq fs gs).fromEntries entries = .ok b ↔ _
  cases hf : fs.fromEntries entries with
  | error fault => cases ha : gs.fromEntries entries <;> simp [Fields.seq, hf, ha]
  | ok f => cases ha : gs.fromEntries entries <;> simp [Fields.seq, hf, ha]

theorem fromEntries_seq {fs : Fields (α → β)} {gs : Fields α} {f : α → β} {a : α}
    (hf : fs.fromEntries entries = .ok f) (ha : gs.fromEntries entries = .ok a) :
    (fs <*> gs).fromEntries entries = .ok (f a) :=
  fromEntries_seq_iff.mpr ⟨f, a, hf, ha, rfl⟩

/-- A record is read if all entries are fields of it, and each field is. -/
theorem decode_object {fs : Fields α} {a : α} (hnames : entryFault fs.names entries [] 0 = none)
    (h : fs.fromEntries entries = .ok a) : fs.decode (.object entries) = .ok a := by
  rw [decode, hnames, h]

end Json.Fields

/-! ### Selections -/

namespace SelectionPayload

/-- The fields of a stored selection in the order of their names. -/
def sortedJson (p : SelectionPayload) : Value :=
  .object [("mode", .text p.mode), ("nodes", .ofList Position.toJson p.nodes),
    ("version", .ofNat p.version.toNat)]

theorem toValue?_toJson {p : SelectionPayload} (h : ∀ node ∈ p.nodes, node.IsStorable) :
    (Document.ofValue p.toJson).toValue? = some p.sortedJson := by
  have hnodes : (Document.ofValue (.ofList Position.toJson p.nodes)).toValue? =
      some (.ofList Position.toJson p.nodes) := by
    refine Document.toValue?_array fun v hv => ?_
    obtain ⟨node, hnode, rfl⟩ := List.mem_map.mp hv
    exact Position.toValue?_toJson (h node hnode)
  rw [toJson, Document.toValue?_object]
  · simp only [SortedMap.ofList, List.foldl_cons, List.foldl_nil, SortedMap.insert]
    rfl
  · simp [hnodes, Value.ofNat, Document.ofValue, Document.toValue?]

/-- **A stored selection is read as it was written.** -/
theorem decode_sortedJson {mode : SelectionMode} {nodes : List Position}
    (h : ∀ node ∈ nodes, node.IsStorable) :
    Json.decodeValue decode (ofSelection mode nodes).sortedJson = .ok (ofSelection mode nodes) := by
  let version : Value := .ofNat currentVersion.toNat
  let written : Value := .ofList Position.toJson nodes
  have hversion : Decoder.uint32 (.ofValue version) = .ok currentVersion := by
    decide
  have hnodes : Decoder.list Position.decode (.ofValue written) = .ok nodes :=
    decodeList_ofList fun node hnode => Position.decode_toJson (h node hnode)
  have hentries : Document.ofValue (ofSelection mode nodes).sortedJson =
      .object [(some "mode", .text mode.name), (some "nodes", .ofValue written),
        (some "version", .ofValue version)] := by
    simp only [sortedJson, ofSelection, Document.ofValue, Document.ofFields, written, version]
  rw [Json.decodeValue, hentries, decode, fields]
  refine Fields.decode_object rfl ?_
  refine Fields.fromEntries_seq (Fields.fromEntries_seq (Fields.fromEntries_map _ ?_) ?_) ?_
  · exact Fields.fromEntries_field rfl hversion
  · exact Fields.fromEntries_field rfl rfl
  · exact Fields.fromEntries_field rfl hnodes

/-- A mode is found by its name. -/
theorem selectionMode_ofSelection (mode : SelectionMode) (nodes : List Position) :
    (ofSelection mode nodes).selectionMode = mode := by
  have hname : ∀ m : SelectionMode, (SelectionMode.all.find? fun other =>
      Text.lowercaseAscii other.name ==
        Text.lowercaseAscii (Text.trim m.name)).getD .cuboid = m := by
    intro m
    cases m <;> decide
  exact hname mode

theorem readsBack_toJson {mode : SelectionMode} {nodes : List Position}
    (h : ∀ node ∈ nodes, node.IsStorable) : (ofSelection mode nodes).toJson.ReadsBack 0 := by
  have hversion : (Number.integer 2).ReadsBack := by decide
  refine ⟨by decide, hversion, trivial, ⟨by decide, ?_⟩, trivial⟩
  refine itemsReadBack_of_forall fun v hv => ?_
  obtain ⟨node, hnode, rfl⟩ := List.mem_map.mp hv
  exact Position.readsBack_toJson (h node hnode) (by decide)

end SelectionPayload

/-! ### Nodes of a shape -/

theorem Position.forall_coordinates_withY {P : Float → Prop} {v : Position} {y : Float}
    (hv : ∀ x ∈ v.coordinates, P x) (hy : P y) : ∀ x ∈ (v.withY y).coordinates, P x := by
  simp only [coordinates, withY, List.forall_mem_cons] at hv ⊢
  exact ⟨hv.1, hy, hv.2.2⟩

/-- The nodes of a shape have no coordinates but those of the shape. -/
theorem Shape.forall_coordinates_nodes {P : Float → Prop} {s : Shape} (h : s.Rebuildable)
    (hcoordinates : ∀ x ∈ s.coordinates, P x) :
    ∀ node ∈ s.nodes, ∀ x ∈ node.coordinates, P x := by
  intro node hnode
  cases s with
  | cuboid c =>
    simp only [coordinates, Position.coordinates, List.forall_mem_append, List.forall_mem_cons]
      at hcoordinates
    obtain ⟨⟨hx, hy, hz, -⟩, hx', hy', hz', -⟩ := hcoordinates
    simp only [nodes, List.mem_cons, List.not_mem_nil, or_false] at hnode
    rcases hnode with rfl | rfl
    · simp only [Position.coordinates, Cuboid.minCorner, List.forall_mem_cons]
      exact ⟨lesser_cases _ hx hx', lesser_cases _ hy hy', lesser_cases _ hz hz', by simp⟩
    · simp only [Position.coordinates, Cuboid.maxCorner, List.forall_mem_cons]
      exact ⟨greater_cases _ hx hx', greater_cases _ hy hy', greater_cases _ hz hz', by simp⟩
  | polygonPrism s =>
    simp only [coordinates, List.forall_mem_cons, List.mem_flatMap] at hcoordinates
    obtain ⟨hmin, hmax, hring⟩ := hcoordinates
    have hfloor : ∀ q ∈ s.vertices.map (·.withY s.minY), ∀ x ∈ q.coordinates, P x := by
      intro q hq
      obtain ⟨v, hv, rfl⟩ := List.mem_map.mp hq
      exact Position.forall_coordinates_withY (fun x hx => hring x ⟨v, hv, hx⟩) hmin
    rcases mem_raiseLast hnode with hq | ⟨q, hq, rfl⟩
    · exact hfloor node hq
    · exact Position.forall_coordinates_withY (hfloor q hq) hmax
  | flatPolygon s =>
    simp only [coordinates, List.forall_mem_cons, List.mem_flatMap] at hcoordinates
    obtain ⟨v, hv, rfl⟩ := List.mem_map.mp hnode
    exact Position.forall_coordinates_withY (fun x hx => hcoordinates.2 x ⟨v, hv, hx⟩)
      hcoordinates.1
  | cylinder s => exact h.elim
  | world s => exact h.elim

theorem Shape.isStorable_nodes {s : Shape} (h : s.Rebuildable)
    (hcoordinates : ∀ x ∈ s.coordinates, StorableCoordinate x) :
    ∀ node ∈ s.nodes, node.IsStorable :=
  forall_coordinates_nodes h hcoordinates

/-! ### Geometry from text -/

namespace StoredGeometry

theorem isBlank_render_object (fields : List (String × Value)) :
    Text.isBlank (Value.object fields).render = false := by
  rw [Text.isBlank, Value.render, String.toList_ofList, Value.chars]
  rfl

/-- **The text of a selection is read as the selection.** -/
theorem parse_render_ofSelection {mode : SelectionMode} {nodes : List Position}
    (h : ∀ node ∈ nodes, node.IsStorable) :
    parse (SelectionPayload.ofSelection mode nodes).toJson.render =
      .ok (ofSelection (SelectionPayload.ofSelection mode nodes)) := by
  let p := SelectionPayload.ofSelection mode nodes
  have hvalue : Json.parse? p.toJson.render = some p.sortedJson := by
    rw [Json.parse?_render (SelectionPayload.readsBack_toJson h),
      SelectionPayload.toValue?_toJson h]
  have hblank : Text.isBlank p.toJson.render = false := isBlank_render_object _
  have hmode : (p.sortedJson.get? "mode").isSome = true := rfl
  have hdecode : Json.decodeValue SelectionPayload.decode p.sortedJson = .ok p :=
    SelectionPayload.decode_sortedJson h
  show parse p.toJson.render = _
  simp only [parse, hblank, hvalue, hmode, hdecode, if_true, Bool.false_eq_true, if_false]
  rfl

/-- **It is read as its mode, its nodes and the shape that they make.** -/
theorem parse_render {mode : SelectionMode} {nodes : List Position}
    (h : ∀ node ∈ nodes, node.IsStorable) {s : Shape} (hshape : mode.shapeOf nodes none = .ok s) :
    parse (SelectionPayload.ofSelection mode nodes).toJson.render = .ok ⟨mode, nodes, s⟩ := by
  have hmode := SelectionPayload.selectionMode_ofSelection mode nodes
  have hnodes : (SelectionPayload.ofSelection mode nodes).nodes = nodes := rfl
  rw [parse_render_ofSelection h]
  simp only [ofSelection, hmode, hnodes, hshape]

/-- **A shape is read from its text.** The mode and the nodes are those that were written; the shape
has the same extent as the one that was stored, and is the same shape if that came out of a
selection. -/
theorem parse_shape {s : Shape} (h : s.Rebuildable)
    (hfinite : ∀ x ∈ s.coordinates, isFinite x = true)
    (hread : ∀ x ∈ s.coordinates, (Number.float x).ReadsBack) :
    ∃ rebuilt,
      parse (SelectionPayload.ofSelection (.ofShape s) s.nodes).toJson.render =
          .ok ⟨.ofShape s, s.nodes, rebuilt⟩ ∧
        s.SameExtent rebuilt ∧
        ∀ mode nodes, SelectionMode.shapeOf mode nodes none = .ok s → rebuilt = s := by
  obtain ⟨rebuilt, hshape, hextent, hexact⟩ :=
    Shape.exists_rebuilt h fun x hx => isNaN_of_isFinite (hfinite x hx)
  have hnodes : ∀ node ∈ s.nodes, node.IsStorable :=
    Shape.isStorable_nodes h fun x hx => ⟨hfinite x hx, hread x hx⟩
  exact ⟨rebuilt, parse_render hnodes hshape, hextent,
    fun _ _ hmade => hexact (settled_of_shapeOf hmade)⟩

/-- A ring with a notch, in one world. -/
def notch : List Position :=
  [⟨"world", 0, 10, 0⟩, ⟨"world", 12, 10, 0⟩, ⟨"world", 12, 10, 12⟩, ⟨"world", 6, 10, 4⟩,
    ⟨"world", 0, 10, 12⟩]

/-- The prism over the notch came out of a selection, and so is read as it was. -/
theorem parse_shape_notch :
    let s := Shape.polygonPrism ⟨10, 30, notch⟩
    (s.Rebuildable ∧ (∀ x ∈ s.coordinates, isFinite x = true) ∧
        ∀ x ∈ s.coordinates, (Number.float x).ReadsBack) ∧
      parse (SelectionPayload.ofSelection (.ofShape s) s.nodes).toJson.render =
        .ok ⟨.polygon, raiseLast 30 notch, s⟩ := by
  intro s
  have hworld : OneWorld notch := ⟨"world", by decide⟩
  have hrebuildable : s.Rebuildable := ⟨by decide, hworld, by decide +kernel⟩
  have hfinite : ∀ x ∈ s.coordinates, isFinite x = true := by decide +kernel
  have hread : ∀ x ∈ s.coordinates, (Number.float x).ReadsBack := by decide +kernel
  obtain ⟨rebuilt, hparse, -, hexact⟩ := parse_shape hrebuildable hfinite hread
  have hmade : SelectionMode.polygon.shapeOf (raiseLast 30 notch) none = .ok s := by
    decide +kernel
  rw [hexact _ _ hmade] at hparse
  exact ⟨⟨hrebuildable, hfinite, hread⟩, hparse⟩

end StoredGeometry

end RegionPolicy
