import RegionPolicy.Proofs.Decoding

/-!
# Shapes as records

A record holds any shape without loss. All kinds of shapes share its fields, and a field that a kind
does not need is left out, so what has to be seen is that each kind finds its own fields again, and
that no default steps in for a value that is there.

That is so for the record itself, for its text, and for a text that is stored with nothing but the
record in it. The last is read as a whole first, which puts the fields in the order of their names.

## Main definitions

* `ShapeRecord.IsStorable` — a record whose numbers are finite and read as they were written.

## Main results

* `ShapeRecord.toShape_ofShape` — the shape of the record of a shape.
* `ShapeRecord.decodeText_toJson`, `ShapeRecord.decode_sortedJson` — a record is read as it was
  written.
* `StoredGeometry.parse_ofShape` — what is read from the record of a shape.
-/

namespace RegionPolicy

open Json

namespace ShapeRecord

/-- A record has all that its shape has. -/
@[simp] theorem toShape_ofShape (s : Shape) : (ofShape s).toShape = s := by
  cases s <;> rfl

/-! ### What a record holds -/

/-- The positions in a record. -/
def positions (r : ShapeRecord) : List Position :=
  r.corner1.toList ++ r.corner2.toList ++ r.vertices.getD [] ++ r.center.toList

/-- The numbers in a record, apart from its positions. -/
def numbers (r : ShapeRecord) : List Float :=
  r.minY.toList ++ r.maxY.toList ++ r.radius.toList ++ r.flatY.toList

theorem forall_mem_positions {P : Position → Prop} {r : ShapeRecord} :
    (∀ p ∈ r.positions, P p) ↔ (∀ p ∈ r.corner1, P p) ∧ (∀ p ∈ r.corner2, P p) ∧
      (∀ ring ∈ r.vertices, ∀ p ∈ ring, P p) ∧ ∀ p ∈ r.center, P p := by
  cases hring : r.vertices <;> simp [positions, hring, or_imp, forall_and]

theorem forall_mem_numbers {P : Float → Prop} {r : ShapeRecord} :
    (∀ x ∈ r.numbers, P x) ↔ (∀ x ∈ r.minY, P x) ∧ (∀ x ∈ r.maxY, P x) ∧
      (∀ x ∈ r.radius, P x) ∧ ∀ x ∈ r.flatY, P x := by
  simp [numbers, or_imp, forall_and]

/-- All numbers in the record can be stored. -/
structure IsStorable (r : ShapeRecord) : Prop where
  positions : ∀ p ∈ r.positions, p.IsStorable
  numbers : ∀ x ∈ r.numbers, StorableCoordinate x

/-- The record of a shape has no numbers but those of the shape. -/
theorem isStorable_ofShape {s : Shape} (h : ∀ x ∈ s.coordinates, StorableCoordinate x) :
    (ofShape s).IsStorable := by
  cases s with
  | cuboid s =>
    obtain ⟨hcorner1, hcorner2⟩ := List.forall_mem_append.mp h
    exact ⟨by simpa [ofShape, positions, or_imp, forall_and] using ⟨hcorner1, hcorner2⟩,
      by simp [ofShape, numbers]⟩
  | polygonPrism s =>
    simp only [Shape.coordinates, List.forall_mem_cons, List.mem_flatMap] at h
    obtain ⟨hmin, hmax, hring⟩ := h
    refine ⟨fun p hp x hx => ?_, by simp [ofShape, numbers, hmin, hmax]⟩
    exact hring x ⟨p, by simpa [ofShape, positions] using hp, hx⟩
  | flatPolygon s =>
    simp only [Shape.coordinates, List.forall_mem_cons, List.mem_flatMap] at h
    obtain ⟨hlevel, hring⟩ := h
    refine ⟨fun p hp x hx => ?_, by simp [ofShape, numbers, hlevel]⟩
    exact hring x ⟨p, by simpa [ofShape, positions] using hp, hx⟩
  | cylinder s =>
    simp only [Shape.coordinates, List.forall_mem_cons] at h
    obtain ⟨hradius, hmin, hmax, hcenter⟩ := h
    have hstorable : s.center.IsStorable := hcenter
    exact ⟨by simpa [ofShape, positions] using hstorable,
      by simp [ofShape, numbers, hmin, hmax, hradius]⟩
  | world s =>
    simp only [Shape.coordinates, List.forall_mem_cons] at h
    exact ⟨by simp [ofShape, positions], by simp [ofShape, numbers, h.1, h.2.1]⟩

/-! ### The written form -/

/-- The fields of a record as they are written. -/
def jsonFields (r : ShapeRecord) : List (String × Value) :=
  ("type", .text r.kind.name) ::
    (presentField "corner1" Position.toJson r.corner1 ++
      presentField "corner2" Position.toJson r.corner2 ++
      presentField "minY" .ofFloat r.minY ++
      presentField "maxY" .ofFloat r.maxY ++
      presentField "vertices" (.ofList Position.toJson) r.vertices ++
      presentField "center" Position.toJson r.center ++
      presentField "radius" .ofFloat r.radius ++
      presentField "flatY" .ofFloat r.flatY ++
      presentField "worlds" .texts r.worlds)

theorem toJson_eq (r : ShapeRecord) : r.toJson = .object r.jsonFields := rfl

section Present

variable {α : Type} (field : String) (f : α → Value) (o : Option α)

@[simp] theorem lookup_presentField (name : String) :
    (presentField field f o).lookup name = if name = field then o.map f else none := by
  cases o with
  | none => simp [presentField]
  | some a =>
    rw [presentField, List.lookup_cons]
    by_cases hname : name = field
    · simp [hname]
    · rw [if_neg hname, beq_false_of_ne hname]
      rfl

theorem sublist_map_fst_presentField : ((presentField field f o).map Prod.fst).Sublist [field] := by
  cases o with
  | none => exact List.nil_sublist _
  | some a => exact List.Sublist.refl _

theorem forall_mem_presentField {P : Value → Prop} :
    (∀ g ∈ presentField field f o, P g.2) ↔ ∀ a ∈ o, P (f a) := by
  cases o with
  | none => simp [presentField]
  | some a => simp [presentField]

end Present

/-- Whatever holds of all that a record holds, holds of the values of its fields. -/
theorem forall_mem_jsonFields {P : Value → Prop} {r : ShapeRecord}
    (hkind : P (.text r.kind.name)) (hposition : ∀ p ∈ r.positions, P p.toJson)
    (hnumber : ∀ x ∈ r.numbers, P (.ofFloat x))
    (hring : ∀ ring ∈ r.vertices, P (.ofList Position.toJson ring))
    (hworlds : ∀ worlds ∈ r.worlds, P (.texts worlds)) : ∀ f ∈ r.jsonFields, P f.2 := by
  obtain ⟨hcorner1, hcorner2, -, hcenter⟩ := forall_mem_positions.mp hposition
  obtain ⟨hmin, hmax, hradius, hflat⟩ := forall_mem_numbers.mp hnumber
  simp only [jsonFields, List.forall_mem_cons, List.forall_mem_append, forall_mem_presentField]
  exact ⟨hkind, ⟨⟨⟨⟨⟨⟨⟨⟨hcorner1, hcorner2⟩, hmin⟩, hmax⟩, hring⟩, hcenter⟩, hradius⟩, hflat⟩,
    hworlds⟩⟩

/-- The fields of a record have different names. -/
theorem nodup_jsonFields (r : ShapeRecord) : (r.jsonFields.map Prod.fst).Nodup := by
  have hall : ["type", "corner1", "corner2", "minY", "maxY", "vertices", "center", "radius",
      "flatY", "worlds"].Nodup := by
    decide
  refine hall.sublist ?_
  simp only [jsonFields, List.map_cons, List.map_append]
  have hsublist := fun (field : String) {α : Type} (f : α → Value) o =>
    sublist_map_fst_presentField field f o
  exact .cons_cons "type" <|
    ((((((((hsublist "corner1" Position.toJson r.corner1).append
      (hsublist "corner2" Position.toJson r.corner2)).append
      (hsublist "minY" .ofFloat r.minY)).append
      (hsublist "maxY" .ofFloat r.maxY)).append
      (hsublist "vertices" (.ofList Position.toJson) r.vertices)).append
      (hsublist "center" Position.toJson r.center)).append
      (hsublist "radius" .ofFloat r.radius)).append
      (hsublist "flatY" .ofFloat r.flatY)).append
      (hsublist "worlds" .texts r.worlds)

end ShapeRecord

theorem ShapeKind.decode_name (kind : ShapeKind) :
    decodeValue decode (.text kind.name) = .ok kind := by
  cases kind <;> rfl

namespace ShapeRecord

/-- The fields of a record are read as they were written. -/
theorem fromEntries_jsonFields {r : ShapeRecord} (h : r.IsStorable) :
    fields.fromEntries (Document.ofFields r.jsonFields) = .ok r := by
  obtain ⟨hcorner1, hcorner2, hring, hcenter⟩ := forall_mem_positions.mp h.positions
  obtain ⟨hmin, hmax, hradius, hflat⟩ := forall_mem_numbers.mp h.numbers
  have hposition : ∀ {name : String} {o : Option Position},
      r.jsonFields.lookup name = o.map Position.toJson → (∀ p ∈ o, p.IsStorable) →
        (Fields.optional name (Decoder.option Position.decode) none).fromEntries
          (Document.ofFields r.jsonFields) = .ok o := fun hlookup hstorable =>
    Fields.fromEntries_present hlookup (fun p _ => by simp [Position.toJson]) fun p hp =>
      Position.decode_toJson (hstorable p hp)
  have hnumber : ∀ {name : String} {o : Option Float},
      r.jsonFields.lookup name = o.map .ofFloat → (∀ x ∈ o, StorableCoordinate x) →
        (Fields.optional name (Decoder.option Decoder.float) none).fromEntries
          (Document.ofFields r.jsonFields) = .ok o := fun hlookup hstorable =>
    Fields.fromEntries_present hlookup (fun x hx => by simp [Value.ofFloat, (hstorable x hx).1])
      fun x hx => decode_ofFloat (hstorable x hx).1
  show fields.fromEntries _ = .ok ⟨r.kind, r.corner1, r.corner2, r.minY, r.maxY, r.vertices,
    r.center, r.radius, r.flatY, r.worlds⟩
  rw [fields]
  refine Fields.fromEntries_seq ?_ ?worlds
  refine Fields.fromEntries_seq ?_ ?flatY
  refine Fields.fromEntries_seq ?_ ?radius
  refine Fields.fromEntries_seq ?_ ?center
  refine Fields.fromEntries_seq ?_ ?vertices
  refine Fields.fromEntries_seq ?_ ?maxY
  refine Fields.fromEntries_seq ?_ ?minY
  refine Fields.fromEntries_seq ?_ ?corner2
  refine Fields.fromEntries_seq ?_ ?corner1
  refine Fields.fromEntries_map ShapeRecord.mk ?kind
  case kind => exact Fields.fromEntries_optional rfl r.kind.decode_name
  case corner1 =>
    exact hposition (by simp [jsonFields, List.lookup_append, List.lookup_cons]) hcorner1
  case corner2 =>
    exact hposition (by simp [jsonFields, List.lookup_append, List.lookup_cons]) hcorner2
  case center =>
    exact hposition (by simp [jsonFields, List.lookup_append, List.lookup_cons]) hcenter
  case minY =>
    exact hnumber (by simp [jsonFields, List.lookup_append, List.lookup_cons]) hmin
  case maxY =>
    exact hnumber (by simp [jsonFields, List.lookup_append, List.lookup_cons]) hmax
  case radius =>
    exact hnumber (by simp [jsonFields, List.lookup_append, List.lookup_cons]) hradius
  case flatY =>
    exact hnumber (by simp [jsonFields, List.lookup_append, List.lookup_cons]) hflat
  case vertices =>
    have hlookup : r.jsonFields.lookup "vertices" = r.vertices.map (.ofList Position.toJson) := by
      simp [jsonFields, List.lookup_append, List.lookup_cons]
    refine Fields.fromEntries_present hlookup (fun ring _ => by simp [Value.ofList])
      fun ring hmem => ?_
    exact decode_ofList fun p hp => Position.decode_toJson (hring ring hmem p hp)
  case worlds =>
    exact Fields.fromEntries_present (by simp [jsonFields, List.lookup_append, List.lookup_cons])
      (fun worlds _ => by simp [Value.texts, Value.ofList]) fun worlds _ => decode_texts worlds

theorem byName_fields : fields.ByName := by
  rw [fields]
  iterate 9 refine Fields.ByName.seq ?_ (Fields.byName_field ..)
  exact Fields.ByName.map (Fields.byName_field ..) _

/-! ### Records as values and texts -/

/-- The written form of a record with its fields in the order of their names. -/
def sortedJson (r : ShapeRecord) : Value :=
  .object (SortedMap.ofList r.jsonFields).entries

theorem decode_sortedJson {r : ShapeRecord} (h : r.IsStorable) :
    decodeValue decode r.sortedJson = .ok r :=
  byName_fields.decode_sorted r.nodup_jsonFields (fromEntries_jsonFields h)

theorem vertices_subset_positions {r : ShapeRecord} {ring : List Position}
    (hring : ring ∈ r.vertices) : ∀ p ∈ ring, p ∈ r.positions := by
  intro p hp
  simp [positions, Option.mem_def.mp hring, hp]

/-- Sorting is all that reading a record as a whole does to it. -/
theorem toValue?_toJson {r : ShapeRecord} (h : r.IsStorable) :
    (Document.ofValue r.toJson).toValue? = some r.sortedJson := by
  rw [toJson_eq, Document.toValue?_object]
  · rfl
  refine forall_mem_jsonFields (P := fun v => (Document.ofValue v).toValue? = some v) rfl
    (fun p hp => Position.toValue?_toJson (h.positions p hp)) ?number ?ring ?worlds
  case number =>
    intro x hx
    rw [Value.ofFloat, if_pos (h.numbers x hx).1]
    rfl
  case ring =>
    intro ring hring
    refine Document.toValue?_array fun v hv => ?_
    obtain ⟨p, hp, rfl⟩ := List.mem_map.mp hv
    exact Position.toValue?_toJson (h.positions p (vertices_subset_positions hring p hp))
  case worlds =>
    intro worlds _
    refine Document.toValue?_array fun v hv => ?_
    obtain ⟨world, -, rfl⟩ := List.mem_map.mp hv
    rfl

theorem readsBack_toJson {r : ShapeRecord} (h : r.IsStorable) {depth : Nat}
    (hdepth : depth + 2 < maxDepth) : r.toJson.ReadsBack depth := by
  refine ⟨by omega, fieldsReadBack_of_forall ?_⟩
  refine forall_mem_jsonFields (P := fun v => v.ReadsBack (depth + 1)) trivial
    (fun p hp => Position.readsBack_toJson (h.positions p hp) (by omega)) ?number ?ring ?worlds
  case number => exact fun x hx => readsBack_ofFloat (h.numbers x hx).2
  case ring =>
    intro ring hring
    exact readsBack_ofList (by omega) fun p hp => Position.readsBack_toJson
      (h.positions p (vertices_subset_positions hring p hp)) (by omega)
  case worlds => exact fun worlds _ => readsBack_texts worlds (by omega)

/-- **A record is read from its text as it was written.** -/
theorem decodeText_toJson {r : ShapeRecord} (h : r.IsStorable) :
    decodeText decode r.toJson.render = .ok r := by
  rw [decodeText_render (readsBack_toJson h (by decide))]
  exact Fields.decode_ofFields r.nodup_jsonFields (fromEntries_jsonFields h)

end ShapeRecord

/-! ### Stored records -/

namespace StoredGeometry

/-- **What is read from a text that holds a record and nothing else:** the shape of the record, with
its own mode and nodes. -/
theorem parse_record {r : ShapeRecord} (h : r.IsStorable) :
    parse (Value.object [("shape", r.toJson)]).render =
      .ok ⟨.ofShape r.toShape, r.toShape.nodes, r.toShape⟩ := by
  have hback : (Value.object [("shape", r.toJson)]).ReadsBack 0 :=
    ⟨by decide, ShapeRecord.readsBack_toJson h (by decide), trivial⟩
  have hvalue : parse? (Value.object [("shape", r.toJson)]).render =
      some (.object [("shape", r.sortedJson)]) := by
    rw [parse?_render hback]
    simp only [Document.ofValue, Document.ofFields, Document.toValue?, Document.entryValues?,
      ShapeRecord.toValue?_toJson h]
    rfl
  have hblank := isBlank_render_object [("shape", r.toJson)]
  have hdecode : decodeValue ShapePayload.decode (.object [("shape", r.sortedJson)]) =
      .ok ⟨r, none⟩ := by
    refine Fields.decode_ofFields (by simp) ?_
    refine Fields.fromEntries_seq ?_ ?nodes
    refine Fields.fromEntries_map ShapePayload.mk ?record
    case record => exact Fields.fromEntries_required rfl (ShapeRecord.decode_sortedJson h)
    case nodes => exact Fields.fromEntries_optional_of_missing rfl
  have hmode : ((Value.object [("shape", r.sortedJson)]).get? "mode").isSome = false := rfl
  have hshape : ((Value.object [("shape", r.sortedJson)]).get? "shape").isSome = true := rfl
  simp only [parse, hblank, hvalue, hmode, hshape, hdecode, Bool.false_eq_true, if_false, if_true]
  rfl

/-- **A record holds any shape without loss.** The shape comes back from the record of it, from the
text of that record, and from a stored text with nothing but the record in it; there it comes with
its own mode and nodes. -/
theorem parse_ofShape (s : Shape) (hfinite : ∀ x ∈ s.coordinates, isFinite x = true)
    (hread : ∀ x ∈ s.coordinates, (Number.float x).ReadsBack) :
    let r := ShapeRecord.ofShape s
    r.toShape = s ∧
      decodeText ShapeRecord.decode r.toJson.render = .ok r ∧
      parse (Value.object [("shape", r.toJson)]).render = .ok ⟨.ofShape s, s.nodes, s⟩ := by
  intro r
  have hstorable : r.IsStorable :=
    ShapeRecord.isStorable_ofShape fun x hx => ⟨hfinite x hx, hread x hx⟩
  have hshape : r.toShape = s := ShapeRecord.toShape_ofShape s
  have hparse := parse_record hstorable
  rw [hshape] at hparse
  exact ⟨hshape, ShapeRecord.decodeText_toJson hstorable, hparse⟩

/-- A round tower. -/
def tower : Shape := .cylinder ⟨⟨"world", 0.5, 64, -3⟩, 4.5, -10, 100⟩

theorem parse_ofShape_tower :
    ((∀ x ∈ tower.coordinates, isFinite x = true) ∧
        ∀ x ∈ tower.coordinates, (Number.float x).ReadsBack) ∧
      (ShapeRecord.ofShape tower).toShape = tower ∧
      parse (Value.object [("shape", (ShapeRecord.ofShape tower).toJson)]).render =
        .ok ⟨.polygon, tower.nodes, tower⟩ := by
  have hfinite : ∀ x ∈ tower.coordinates, isFinite x = true := by decide +kernel
  have hread : ∀ x ∈ tower.coordinates, (Number.float x).ReadsBack := by decide +kernel
  obtain ⟨hshape, -, hparse⟩ := parse_ofShape tower hfinite hread
  exact ⟨⟨hfinite, hread⟩, hshape, hparse⟩

end StoredGeometry

end RegionPolicy
