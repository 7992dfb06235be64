import RegionPolicy.Proofs.Collections
import RegionPolicy.Proofs.FiniteNumbers
import RegionPolicy.Proofs.StoredShapes

/-!
# Text that is written again

Whoever opens a region and saves it replaces its text by one that is made of what was read. Reading is
lenient: the mode may be spelt in other letters or be none, the nodes need not make a shape, and
fields that are not known are passed over. Writing is not: every mode has one name, and only finite
numbers can be written. So the text changes, but what it is read as does not. **One reading settles
everything:** the mode that was read is found by its name, and with the same mode and the same nodes
comes the same shape, or again none.

That the nodes can be written takes finite coordinates. They are, because they were read. No number of
a text is infinite, its value has no numbers but those, and a decoder makes no others. The last is
shown for the parts that decoders are made of. A record is put together by functions that wait for
more fields; of those it is shown that whatever they are given with the right property, their result
has the right property.

## Main definitions

* `Json.Document.IsFinite` — a document all of whose numbers are finite.
* `Json.Decoder.Ensures`, `Json.Fields.Ensures` — what holds of all that is decoded from such a one.

## Main results

* `Json.Document.isFinite_of_parse?` — all numbers that are read from a text are finite.
* `Json.Fields.Ensures.seq`, `Json.Fields.Ensures.decode` — the properties of records.
* `SelectionPayload.ensures_decode` — nodes that are read have finite coordinates.
* `StoredGeometry.parse_rewritten` — **writing a selection again changes nothing.**
-/

namespace RegionPolicy

namespace Json

/-! ### Documents whose numbers are finite -/

namespace Document

mutual

/-- All numbers in the document are finite. -/
def IsFinite : Document → Prop
  | number n => isFinite n.toFloat = true
  | array items => ItemsFinite items
  | object entries => EntriesFinite entries
  | _ => True

/-- All numbers in the items of an array are finite. -/
def ItemsFinite : List Document → Prop
  | [] => True
  | d :: rest => d.IsFinite ∧ ItemsFinite rest

/-- All numbers in the fields of an object are finite. -/
def EntriesFinite : List (Option String × Document) → Prop
  | [] => True
  | (_, d) :: rest => d.IsFinite ∧ EntriesFinite rest

end

theorem isFinite_readNumber (cs : List Char) : (readNumber cs).1.IsFinite := by
  rw [readNumber]
  split
  · trivial
  · split
    · rename_i hvalue
      exact NumberText.isFinite_of_value? hvalue
    · trivial

theorem isFinite_sealDepth {d : Document} {depth : Nat} {rest : Option (List Char)}
    (h : d.IsFinite) : (sealDepth depth d rest).IsFinite := by
  rw [sealDepth]
  split
  · exact h
  · split <;> trivial

theorem isFinite_readName {d : Document} {name cs : List Char} (h : d.IsFinite) :
    (readName name d cs).1.IsFinite := by
  rw [readName]
  split
  · exact h
  · trivial

mutual

theorem isFinite_readValue : ∀ (fuel depth : Nat) (cs : List Char),
    (readValue fuel depth cs).1.IsFinite
  | 0, _, _ => trivial
  | fuel + 1, depth, cs => by
    rw [readValue]
    split
    · trivial
    · exact isFinite_readName trivial
    · exact isFinite_readName trivial
    · exact isFinite_readName trivial
    · split <;> trivial
    · split
      · exact isFinite_sealDepth trivial
      · exact isFinite_sealDepth (itemsFinite_readItems fuel (depth + 1) _)
    · split
      · exact isFinite_sealDepth trivial
      · exact isFinite_sealDepth (entriesFinite_readEntries fuel (depth + 1) _)
    · exact isFinite_readNumber _

theorem itemsFinite_readItems : ∀ (fuel depth : Nat) (cs : List Char),
    ItemsFinite (readItems fuel depth cs).1
  | 0, _, _ => ⟨trivial, trivial⟩
  | fuel + 1, depth, cs => by
    have hitem := isFinite_readValue fuel depth cs
    rw [readItems]
    split
    · rename_i hread
      rw [hread] at hitem
      exact ⟨hitem, trivial⟩
    · rename_i hread
      rw [hread] at hitem
      split
      · exact ⟨hitem, itemsFinite_readItems fuel depth _⟩
      · exact ⟨hitem, trivial⟩
      · exact ⟨hitem, trivial, trivial⟩

theorem entriesFinite_readEntries : ∀ (fuel depth : Nat) (cs : List Char),
    EntriesFinite (readEntries fuel depth cs).1
  | 0, _, _ => ⟨trivial, trivial⟩
  | fuel + 1, depth, cs => by
    rw [readEntries]
    split
    · split
      · exact ⟨trivial, trivial⟩
      · split
        · rename_i more _
          have hfield := isFinite_readValue fuel depth more
          split
          · rename_i hread
            rw [hread] at hfield
            exact ⟨hfield, trivial⟩
          · rename_i hread
            rw [hread] at hfield
            split
            · exact ⟨hfield, entriesFinite_readEntries fuel depth _⟩
            · exact ⟨hfield, trivial⟩
            · exact ⟨hfield, trivial, trivial⟩
        · exact ⟨trivial, trivial⟩
    · exact ⟨trivial, trivial⟩

end

/-! ### Values of documents -/

theorem itemsFinite_ofItems {items : List Value} :
    ItemsFinite (ofItems items) ↔ ∀ v ∈ items, (ofValue v).IsFinite := by
  induction items with
  | nil => simp [ofItems, ItemsFinite]
  | cons v rest ih => simp [ofItems, ItemsFinite, ih]

theorem entriesFinite_ofFields {fields : List (String × Value)} :
    EntriesFinite (ofFields fields) ↔ ∀ f ∈ fields, (ofValue f.2).IsFinite := by
  induction fields with
  | nil => simp [ofFields, EntriesFinite]
  | cons f rest ih => simp [ofFields, EntriesFinite, ih]

mutual

/-- The value of a document has no other numbers than the document. -/
theorem IsFinite.ofValue : ∀ {d : Document} {v : Value}, d.toValue? = some v → d.IsFinite →
    (ofValue v).IsFinite
  | null, _, h, _ | boolean _, _, h, _ | text _, _, h, _ => Option.some.inj h ▸ trivial
  | number _, _, h, hd => Option.some.inj h ▸ hd
  | refused, _, h, _ | malformed, _, h, _ => nomatch h
  | array items, v, h, hd => by
    rw [toValue?] at h
    obtain ⟨values, hvalues, rfl⟩ := Option.map_eq_some_iff.mp h
    exact itemsFinite_ofItems.mpr (ItemsFinite.ofItems hvalues hd)
  | object entries, v, h, hd => by
    rw [toValue?] at h
    obtain ⟨fields, hfields, rfl⟩ := Option.map_eq_some_iff.mp h
    exact entriesFinite_ofFields.mpr fun f hf =>
      EntriesFinite.ofFields hfields hd f (SortedMap.mem_of_mem_entries_ofList hf)

theorem ItemsFinite.ofItems : ∀ {items : List Document} {values : List Value},
    itemValues? items = some values → ItemsFinite items → ∀ v ∈ values, (ofValue v).IsFinite
  | [], _, h, _, v, hv => by
    obtain rfl := Option.some.inj h
    cases hv
  | d :: rest, _, h, hd, v, hv => by
    rw [itemValues?] at h
    split at h
    · rename_i hfirst hrest
      obtain rfl := Option.some.inj h
      rcases List.mem_cons.mp hv with rfl | hv
      · exact IsFinite.ofValue hfirst hd.1
      · exact ItemsFinite.ofItems hrest hd.2 v hv
    · cases h

theorem EntriesFinite.ofFields : ∀ {entries : List (Option String × Document)}
    {fields : List (String × Value)}, entryValues? entries = some fields →
      EntriesFinite entries → ∀ f ∈ fields, (ofValue f.2).IsFinite
  | [], _, h, _, f, hf => by
    obtain rfl := Option.some.inj h
    cases hf
  | (name, d) :: rest, _, h, hd, f, hf => by
    unfold entryValues? at h
    split at h
    · rename_i hfirst hrest
      obtain rfl := Option.some.inj h
      rcases List.mem_cons.mp hf with rfl | hf
      · exact IsFinite.ofValue hfirst hd.1
      · exact EntriesFinite.ofFields hrest hd.2 f hf
    · cases h

end

/-- **All numbers that are read from a text are finite.** -/
theorem isFinite_of_parse? {s : String} {v : Value} (h : parse? s = some v) :
    (ofValue v).IsFinite := by
  have hread : (Text.ofString s).document.IsFinite :=
    isFinite_readValue (2 * s.toList.length + 2) 0 s.toList
  rw [parse?] at h
  split at h
  · cases h
  · exact IsFinite.ofValue h hread

end Document

/-! ### What is decoded from finite numbers -/

variable {α β : Type}

/-- Whatever is decoded from a document whose numbers are finite has a property. -/
def Decoder.Ensures (decode : Decoder α) (P : α → Prop) : Prop :=
  ∀ d a, d.IsFinite → decode d = .ok a → P a

namespace Decoder

variable {decode : Decoder α} {P : α → Prop}

theorem ensures_float : Decoder.float.Ensures fun x => isFinite x = true := by
  intro d x hd h
  cases d with
  | number n => exact Except.ok.inj h ▸ hd
  | null | boolean | text | refused | malformed | array | object => cases h

theorem Ensures.items (hdecode : decode.Ensures P) {ds : List Document} {l : List α}
    (hds : Document.ItemsFinite ds) (h : Decoder.items decode ds = .ok l) : ∀ a ∈ l, P a := by
  induction ds generalizing l with
  | nil =>
    obtain rfl := Except.ok.inj h
    simp
  | cons d rest ih =>
    rw [Decoder.items] at h
    cases hfirst : decode d with
    | error e => simp [hfirst] at h
    | ok a =>
      cases hrest : Decoder.items decode rest with
      | error e => simp [hfirst, hrest] at h
      | ok as =>
        simp only [hfirst, hrest] at h
        obtain rfl := Except.ok.inj h
        exact List.forall_mem_cons.mpr ⟨hdecode d a hds.1 hfirst, ih hds.2 hrest⟩

theorem Ensures.list (h : decode.Ensures P) : (Decoder.list decode).Ensures fun l => ∀ a ∈ l, P a := by
  intro d l hd hl
  cases d with
  | array ds => exact h.items hd hl
  | null | boolean | number | text | refused | malformed | object => cases hl

/-- **What is decoded from a text has the property.** -/
theorem Ensures.of_parse? (h : decode.Ensures P) {s : String} {v : Value} {a : α}
    (hvalue : Json.parse? s = some v) (ha : decodeValue decode v = .ok a) : P a :=
  h (.ofValue v) a (Document.isFinite_of_parse? hvalue) ha

end Decoder

namespace Fields

/-- Whatever is read from fields whose numbers are finite has a property. -/
structure Ensures (fs : Fields α) (P : α → Prop) : Prop where
  of_entries : ∀ {entries a}, Document.EntriesFinite entries → fs.fromEntries entries = .ok a → P a
  of_items : ∀ {items a rest}, Document.ItemsFinite items → fs.fromItems items = .ok (a, rest) →
    P a ∧ Document.ItemsFinite rest

theorem isFinite_of_findEntry {name : String} {entries : List (Option String × Document)}
    {i j : Nat} {d : Document} (h : Document.EntriesFinite entries)
    (hfind : findEntry name entries i = some (j, d)) : d.IsFinite := by
  induction entries generalizing i with
  | nil => cases hfind
  | cons e rest ih =>
    rw [findEntry] at hfind
    split at hfind
    · obtain ⟨-, rfl⟩ := Prod.mk.inj (Option.some.inj hfind)
      exact h.1
    · exact ih h.2 hfind

theorem ensures_field {name : String} {decode : Decoder α} {absent : Option α} {P : α → Prop}
    (h : decode.Ensures P) (habsent : ∀ a ∈ absent, P a) : (field name decode absent).Ensures P where
  of_entries {entries a} hentries ha := by
    simp only [field] at ha
    split at ha
    · rename_i hfind
      split at ha
      · rename_i hdecode
        exact Except.ok.inj ha ▸ h _ _ (isFinite_of_findEntry hentries hfind) hdecode
      · cases ha
    · split at ha
      · exact habsent a (congrArg some (Except.ok.inj ha))
      · cases ha
  of_items {items a rest} hitems ha := by
    simp only [field] at ha
    split at ha
    · split at ha
      · rename_i hdecode
        obtain ⟨rfl, rfl⟩ := Prod.mk.inj (Except.ok.inj ha)
        exact ⟨h _ _ hitems.1 hdecode, hitems.2⟩
      · cases ha
    · split at ha
      · obtain ⟨rfl, rfl⟩ := Prod.mk.inj (Except.ok.inj ha)
        exact ⟨habsent _ rfl, trivial⟩
      · cases ha

theorem Ensures.map {fs : Fields α} {f : α → β} {P : β → Prop} (h : fs.Ensures fun a => P (f a)) :
    (f <$> fs).Ensures P where
  of_entries {entries b} hentries hb := by
    obtain ⟨a, ha, rfl⟩ := fromEntries_map_iff.mp hb
    exact h.of_entries hentries ha
  of_items {items b rest} hitems hb := by
    change (fs.fromItems items).map _ = .ok (b, rest) at hb
    cases ha : fs.fromItems items with
    | error fault => simp [ha, Except.map] at hb
    | ok read =>
      obtain ⟨a, left⟩ := read
      rw [ha] at hb
      obtain ⟨rfl, rfl⟩ := Prod.mk.inj (Except.ok.inj hb)
      exact h.of_items hitems ha

/-- A function that waits for one more field has to give the right results for the right values. -/
theorem Ensures.seq {fs : Fields (α → β)} {gs : Fields α} {P : α → Prop} {Q : β → Prop}
    (hf : fs.Ensures fun f => ∀ a, P a → Q (f a)) (hg : gs.Ensures P) : (fs <*> gs).Ensures Q where
  of_entries {entries b} hentries hb := by
    obtain ⟨f, a, hfunction, ha, rfl⟩ := fromEntries_seq_iff.mp hb
    exact hf.of_entries hentries hfunction a (hg.of_entries hentries ha)
  of_items {items b rest} hitems hb := by
    change (Fields.seq fs gs).fromItems items = .ok (b, rest) at hb
    rw [Fields.seq] at hb
    dsimp only at hb
    split at hb
    · cases hb
    · rename_i hfunction
      obtain ⟨hvalue, hleft⟩ := hf.of_items hitems hfunction
      split at hb
      · cases hb
      · rename_i ha
        obtain ⟨rfl, rfl⟩ := Prod.mk.inj (Except.ok.inj hb)
        obtain ⟨hargument, hrest⟩ := hg.of_items hleft ha
        exact ⟨hvalue _ hargument, hrest⟩

theorem Ensures.decode {fs : Fields α} {P : α → Prop} (h : fs.Ensures P) : fs.decode.Ensures P := by
  intro d a hd ha
  unfold Fields.decode at ha
  split at ha
  · split at ha
    · rename_i hread
      exact Except.ok.inj ha ▸ h.of_entries hd hread
    all_goals cases ha
  · split at ha
    · rename_i hread
      exact Except.ok.inj ha ▸ (h.of_items hd hread).1
    all_goals cases ha
  · cases ha

end Fields

end Json

/-! ### Nodes of a stored selection -/

open Json

/-- A position that is read has finite coordinates. -/
theorem Position.ensures_decode :
    Position.decode.Ensures fun p => ∀ x ∈ p.coordinates, isFinite x = true := by
  have hcoordinate (name : String) :
      (Fields.required name Decoder.float).Ensures fun x => isFinite x = true :=
    Fields.ensures_field Decoder.ensures_float (by simp)
  have hworld : (Fields.required "world" Decoder.text).Ensures fun world =>
      ∀ x, isFinite x = true → ∀ y, isFinite y = true → ∀ z, isFinite z = true →
        ∀ c ∈ (Position.mk world x y z).coordinates, isFinite c = true := by
    refine Fields.ensures_field (fun _ world _ _ x hx y hy z hz => ?_) (by simp)
    simp [coordinates, hx, hy, hz]
  have hfields : Position.fields.Ensures fun p => ∀ x ∈ p.coordinates, isFinite x = true :=
    .seq (.seq (.seq (.map hworld) (hcoordinate "x")) (hcoordinate "y")) (hcoordinate "z")
  exact hfields.decode

/-- So has each node of a selection that is read. -/
theorem SelectionPayload.ensures_decode : SelectionPayload.decode.Ensures fun p =>
    ∀ node ∈ p.nodes, ∀ x ∈ node.coordinates, isFinite x = true := by
  have hnodes : (Fields.optional "nodes" (Decoder.list Position.decode) []).Ensures
      fun nodes => ∀ node ∈ nodes, ∀ x ∈ node.coordinates, isFinite x = true :=
    Fields.ensures_field Position.ensures_decode.list (by simp)
  have hversion : (Fields.optional "version" Decoder.uint32 currentVersion).Ensures fun version =>
      ∀ mode, True → ∀ nodes, (∀ node ∈ nodes, ∀ x ∈ node.coordinates, isFinite x = true) →
        ∀ node ∈ (SelectionPayload.mk version mode nodes).nodes,
          ∀ x ∈ node.coordinates, isFinite x = true :=
    Fields.ensures_field (fun _ _ _ _ _ _ _ hnodes => hnodes) fun _ _ _ _ _ hnodes => hnodes
  have hmode : (Fields.required "mode" Decoder.text).Ensures fun _ => True :=
    Fields.ensures_field (fun _ _ _ _ => trivial) (by simp)
  have hfields : SelectionPayload.fields.Ensures fun p =>
      ∀ node ∈ p.nodes, ∀ x ∈ node.coordinates, isFinite x = true :=
    .seq (.seq (.map hversion) hmode) hnodes
  exact hfields.decode

/-! ### Selections that are written again -/

namespace StoredGeometry

/-- The text of a selection is accepted only if it is decoded as one. -/
theorem exists_selection_of_parse {data : String} {v : Value} {g : StoredGeometry}
    (hvalue : Json.parse? data = some v) (hmode : (v.get? "mode").isSome = true)
    (h : parse data = .ok g) :
    ∃ p, Json.decodeValue SelectionPayload.decode v = .ok p ∧ g = ofSelection p := by
  rw [parse] at h
  split at h
  · cases h
  · simp only [hvalue, hmode, if_true] at h
    split at h
    · rename_i p hp
      exact ⟨p, hp, (Except.ok.inj h).symm⟩
    · cases h

/-- A selection that is written again is the same: its mode has the name of a mode, and that is what
counts. -/
theorem ofSelection_ofSelection (p : SelectionPayload) :
    ofSelection (SelectionPayload.ofSelection p.selectionMode p.nodes) = ofSelection p := by
  have hmode := SelectionPayload.selectionMode_ofSelection p.selectionMode p.nodes
  rw [ofSelection, hmode]
  rfl

/-- **Writing a selection again changes nothing.** Take any text that has a mode and is accepted, and
let its coordinates be read as they were written, as far as they are finite. Then the mode and the
nodes that were read can be written, and what is read from the new text has the same mode, the same
nodes and the same shape. -/
theorem parse_rewritten {data : String} {v : Value} (hvalue : Json.parse? data = some v)
    (hmode : (v.get? "mode").isSome = true) {g : StoredGeometry} (h : parse data = .ok g)
    (hread : ∀ node ∈ g.nodes, ∀ x ∈ node.coordinates, isFinite x = true →
      (Number.float x).ReadsBack) :
    parse (SelectionPayload.ofSelection g.mode g.nodes).toJson.render = .ok g := by
  obtain ⟨p, hp, rfl⟩ := exists_selection_of_parse hvalue hmode h
  have hnodes : (ofSelection p).nodes = p.nodes := rfl
  rw [hnodes] at hread
  have hfinite : ∀ node ∈ p.nodes, ∀ x ∈ node.coordinates, isFinite x = true :=
    SelectionPayload.ensures_decode.of_parse? hvalue hp
  have hstorable : ∀ node ∈ p.nodes, node.IsStorable := fun node hnode x hx =>
    ⟨hfinite node hnode x hx, hread node hnode x hx (hfinite node hnode x hx)⟩
  have hmode : (ofSelection p).mode = p.selectionMode := by simp only [ofSelection]
  rw [hmode, hnodes, parse_render_ofSelection hstorable, ofSelection_ofSelection]

/-- A selection as somebody wrote it: of another version, with the mode in other letters, a field that
is not known, and too few nodes for a polygon, of which one is written without names. -/
def handwritten : String :=
  (Value.object [("by", .text "ann"), ("version", .ofNat 7), ("mode", .text " polyGON "),
    ("nodes", .array [.array [.text "world", .ofNat 1, .ofFloat 2.5, .ofInt (-3)],
      Position.toJson ⟨"end", 10, 64, -0.0⟩])]).render

/-- It is read as a polygon without a shape, and so is what is written again. -/
theorem parse_rewritten_handwritten :
    let g : StoredGeometry := ⟨.polygon, [⟨"world", 1, 2.5, -3⟩, ⟨"end", 10, 64, -0.0⟩], .empty⟩
    (∃ v, Json.parse? handwritten = some v ∧ (v.get? "mode").isSome = true) ∧
      parse handwritten = .ok g ∧
      (∀ node ∈ g.nodes, ∀ x ∈ node.coordinates, isFinite x = true →
        (Number.float x).ReadsBack) ∧
      parse (SelectionPayload.ofSelection g.mode g.nodes).toJson.render = .ok g := by
  intro g
  have hmode : ((Json.parse? handwritten).bind fun v => v.get? "mode").isSome = true := by
    decide +kernel
  obtain ⟨mode, hmode⟩ := Option.isSome_iff_exists.mp hmode
  obtain ⟨v, hvalue, hmode⟩ := Option.bind_eq_some_iff.mp hmode
  have hmode : (v.get? "mode").isSome = true := Option.isSome_iff_exists.mpr ⟨mode, hmode⟩
  have hparse : parse handwritten = .ok g := by decide +kernel
  have hread : ∀ node ∈ g.nodes, ∀ x ∈ node.coordinates, isFinite x = true →
      (Number.float x).ReadsBack := by decide +kernel
  exact ⟨⟨v, hvalue, hmode⟩, hparse, hread, parse_rewritten hvalue hmode hparse hread⟩

end StoredGeometry

end RegionPolicy
