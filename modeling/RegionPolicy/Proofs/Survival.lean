import RegionPolicy.Proofs.Commits
import RegionPolicy.Proofs.Misreading
import RegionPolicy.Proofs.Texts

/-!
# Whether a committed shape survives a load

A commit puts a shape into force and stores its nodes; a load puts into force what the stored nodes
make. A commit for an artifact that names no mode keeps the mode that is stored. The nodes are those
of the new shape, though, and in the mode of another shape they make something else. Every artifact
starts in cuboid mode, so a prism that is committed to it is in force until the next load, and then
the box around it is.

All this is about a store that does not fail: whatever is written is read again, and the text of an
artifact is what was written last.

## Main definitions

* `ArtifactStore.Dependable` — a store that does not fail for some artifacts.
* `ArtifactStore.storedMode` — the mode that a commit for an artifact keeps.

## Main results

* `ArtifactStore.resolveShape_of_read` — the shape of an artifact with a stored selection.
* `Engine.commitArtifact_of_saved` — what a commit for an artifact does when its text is written.
* `Engine.shapes_commitArtifact` — the shapes before and after the load.
* `Engine.contains_reload_iff` — when a committed shape survives a load.
-/

namespace RegionPolicy

open ArtifactStore TextStore

namespace ArtifactStore

variable {σ : Type} [ArtifactStore σ] {s : σ} {a : Artifact}

/-! ### Stores that do not fail -/

/-- A store that does not fail for some artifacts: there is a condition under which their texts can
be read and written, and which still holds when they were written. -/
def Dependable (named : ArtifactId → Prop) (s : σ) : Prop :=
  ∃ holds : σ → Prop, holds s ∧ ∀ s, holds s → ∀ id, named id →
    (∃ data, read s id = .ok data) ∧ ∀ data, ∃ s', write s id data = (.ok (), s') ∧ holds s'

namespace Dependable

variable {named : ArtifactId → Prop}

/-- A store in memory does not fail unless it is told to. -/
theorem of_memoryStore {s : MemoryStore}
    (h : ∀ id, named id → s.unreadable.contains id = false ∧ s.unwritable.contains id = false) :
    Dependable named s := by
  refine ⟨fun s => ∀ id, named id → s.unreadable.contains id = false ∧
    s.unwritable.contains id = false, h, fun s hs id hid => ?_⟩
  obtain ⟨hread, hwrite⟩ := hs id hid
  simp only [ArtifactStore.read, write, hread, hwrite]
  exact ⟨⟨_, rfl⟩, fun data => ⟨_, rfl, hs⟩⟩

theorem exists_read (h : Dependable named s) {id : ArtifactId} (hid : named id) :
    ∃ data, read s id = .ok data := by
  obtain ⟨holds, hs, hstep⟩ := h
  exact (hstep s hs id hid).1

theorem exists_write (h : Dependable named s) {id : ArtifactId} (hid : named id) (data : String) :
    ∃ s', write s id data = (.ok (), s') ∧ Dependable named s' := by
  obtain ⟨holds, hs, hstep⟩ := h
  obtain ⟨s', hwrite, hs'⟩ := (hstep s hs id hid).2 data
  exact ⟨s', hwrite, holds, hs', hstep⟩

theorem not_exposed (h : Dependable named s) {id : ArtifactId} (hid : named id) :
    ¬ Exposed s id := by
  rintro ⟨⟨failure, hfailed⟩, -⟩
  obtain ⟨data, hread⟩ := h.exists_read hid
  rw [hread] at hfailed
  cases hfailed

theorem prepare (h : Dependable named s) (ha : named a.id) : Dependable named (prepare s a) := by
  rw [ArtifactStore.prepare]
  split
  · obtain ⟨s', hwrite, hs'⟩ := h.exists_write ha (payloadText a .cuboid [])
    rw [saveGeometry, hwrite]
    exact hs'
  · exact h

theorem foldl_prepare (h : Dependable named s) {as : List Artifact}
    (has : ∀ a ∈ as, named a.id) : Dependable named (as.foldl ArtifactStore.prepare s) := by
  induction as generalizing s with
  | nil => exact h
  | cons a rest ih =>
    exact ih (h.prepare (has a List.mem_cons_self)) fun b hb => has b (List.mem_cons_of_mem a hb)

/-- What was written is read. -/
theorem read_of_written [TextStore σ] {s' : σ} (h : Dependable named s') {id : ArtifactId}
    (hid : named id) {data : String} (hwrite : write s id data = (.ok (), s')) :
    read s' id = .ok (some data) := by
  obtain ⟨found, hread⟩ := h.exists_read hid
  rw [hread, ← textAt_of_read hread, textAt_of_written hwrite, Function.update_self]

end Dependable

/-! ### Stored selections -/

/-- The mode that a commit for an artifact keeps: that of the stored geometry, or else that of the
new shape. -/
def storedMode (s : σ) (a : Artifact) (shape : Shape) : SelectionMode :=
  match loadGeometry s a with
  | some stored => stored.mode
  | none => .ofShape shape

theorem storedMode_eq_iff (s : σ) (a : Artifact) (shape : Shape) :
    storedMode s a shape = .ofShape shape ↔
      ∀ stored, loadGeometry s a = some stored → stored.mode = .ofShape shape := by
  rw [storedMode]
  cases loadGeometry s a with
  | none => exact iff_of_true rfl fun _ h => by cases h
  | some stored =>
    exact ⟨fun h _ heq => Option.some.inj heq ▸ h, fun h => h stored rfl⟩

/-- **The shape of an artifact with a stored selection:** what the nodes make in the mode. -/
theorem resolveShape_of_read (ha : a.global = none) {mode : SelectionMode} {shape : Shape}
    (hnodes : ∀ node ∈ shape.nodes, node.IsStorable)
    (hread : read s a.id =
      .ok (some (SelectionPayload.ofSelection mode shape.nodes).toJson.render)) :
    (resolveShape s (some a)).1 = shape.rereadAs mode := by
  have hblank : Text.isBlank (SelectionPayload.ofSelection mode shape.nodes).toJson.render =
      false := StoredGeometry.isBlank_render_object _
  have hprepare : prepare s a = s := prepare_of_read ha hread hblank
  have hgeometry : loadGeometry s a =
      some (.ofSelection (SelectionPayload.ofSelection mode shape.nodes)) := by
    rw [loadGeometry, text?, hread, Option.bind_some, geometryOf, hblank, ha,
      StoredGeometry.parse_render_ofSelection hnodes]
    rfl
  rw [resolveShape]
  dsimp only
  rw [hprepare, hgeometry]
  rfl

end ArtifactStore

theorem Region.usesArtifact_iff (r : Region) {id : ArtifactId} :
    r.usesArtifact id = true ↔ ∃ a, r.definition.artifact = some a ∧ a.id = id := by
  rw [usesArtifact, artifact, Option.any_eq_true]
  simp only [decide_eq_true_eq]

namespace Engine

variable {δ σ : Type}

/-! ### Commits -/

/-- **What a commit for an artifact does when its text is written:** the shape is in force for all
regions of the artifact. -/
theorem commitArtifact_of_saved [ArtifactStore σ] {e : Engine δ σ} {a : Artifact} {shape : Shape}
    {store : σ} (h : saveGeometry e.store a (storedMode e.store a shape) shape.nodes =
      (.ok (), store)) :
    (e.commitArtifact a shape [] none).1 = .ok (e.index.usersOf a.id).length ∧
      (e.commitArtifact a shape [] none).2.source = e.source ∧
      (e.commitArtifact a shape [] none).2.store = store ∧
      (e.commitArtifact a shape [] none).2.index =
        e.index.reshape (fun r => r.usesArtifact a.id) shape := by
  have heq : e.commitArtifact a shape [] none = (.ok (e.index.usersOf a.id).length,
      (e.index.usersOf a.id).foldl invalidate
        { e with store, index := e.index.replaceShapes a.id shape }) := by
    simp only [commitArtifact]
    split
    · rename_i failure hfailed
      cases hfailed.symm.trans (congrArg Prod.fst h)
    · exact Prod.ext rfl (congrArg (fun store => (e.index.usersOf a.id).foldl invalidate
        { e with store, index := e.index.replaceShapes a.id shape }) (congrArg Prod.snd h))
  obtain ⟨cache, changes, hforget⟩ := foldl_invalidate_eq
    { e with store, index := e.index.replaceShapes a.id shape } (e.index.usersOf a.id)
  rw [heq, hforget]
  exact ⟨rfl, rfl, rfl, rfl⟩

/-! ### Loads -/

variable [ArtifactStore σ] [DefinitionSource δ]

/-- A region in force after a load has the shape that its artifact had when it came up. -/
theorem exists_store_of_get?_reload {e : Engine δ σ} {definitions : List RegionDefinition}
    (hload : DefinitionSource.load e.source = .ok definitions) {holds : σ → Prop}
    (hholds : ∀ s, holds s → ∀ a ∈ artifactsOf definitions, holds (prepare s a))
    (hs : holds e.store) {id : RegionId} {r : Region}
    (hr : e.reload.2.index.get? id = some r) :
    ∃ s, holds s ∧ r.shape = (resolveShape s r.definition.artifact).1 := by
  rw [index_reload hload] at hr
  obtain ⟨d, hd, hdefinition, hshape⟩ := draft_of_get?_arrange hr
  have hmem := (List.mem_filter.mp (List.mem_of_getLast? hd)).1
  obtain ⟨s, hs, hresolved⟩ := exists_store_of_mem_draftsOf hholds hs hmem
  exact ⟨s, hs, by rw [hshape, hdefinition, hresolved]⟩

theorem mem_artifactsOf_of_get?_reload {e : Engine δ σ} {definitions : List RegionDefinition}
    (hload : DefinitionSource.load e.source = .ok definitions) {id : RegionId} {r : Region}
    (hr : e.reload.2.index.get? id = some r) {b : Artifact} (hb : r.definition.artifact = some b) :
    b ∈ artifactsOf definitions := by
  rw [index_reload hload] at hr
  obtain ⟨d, hd, hdefinition, -⟩ := draft_of_get?_arrange hr
  have hmem := (List.mem_filter.mp (List.mem_of_getLast? hd)).1
  refine List.mem_filterMap.mpr ⟨d.definition, ?_, hdefinition ▸ hb⟩
  rw [← definitions_draftsOf e.store]
  exact List.mem_map_of_mem hmem

/-- The artifacts that a load and a commit for an artifact have to do with. -/
def Concerned (definitions : List RegionDefinition) (a : Artifact) (id : ArtifactId) : Prop :=
  id = a.id ∨ ∃ b ∈ artifactsOf definitions, b.id = id

/-- A store that does not fail does not fail after a load either. -/
theorem dependable_reload {e : Engine δ σ} {definitions : List RegionDefinition}
    (hload : DefinitionSource.load e.source = .ok definitions) {a : Artifact}
    (hstore : Dependable (Concerned definitions a) e.store) :
    Dependable (Concerned definitions a) e.reload.2.store := by
  rw [store_reload hload, store_draftsOf]
  exact hstore.foldl_prepare fun b hb => .inr ⟨b, hb, rfl⟩

variable [TextStore σ]

/-- **The shape after a load** of a region whose artifact has a stored selection: none of the
artifacts that come up before it touches the text. -/
theorem shape_of_get?_reload {e : Engine δ σ} {definitions : List RegionDefinition}
    (hload : DefinitionSource.load e.source = .ok definitions) {a : Artifact}
    (hplain : ∀ b ∈ artifactsOf definitions, place σ b.id = place σ a.id → b.global = none)
    (hstore : Dependable (Concerned definitions a) e.store) {mode : SelectionMode} {s : Shape}
    (hnodes : ∀ node ∈ s.nodes, node.IsStorable)
    (htext : textOf e.store a.id =
      some (SelectionPayload.ofSelection mode s.nodes).toJson.render)
    {id : RegionId} {r : Region} (hr : e.reload.2.index.get? id = some r)
    (huses : r.usesArtifact a.id = true) : r.shape = s.rereadAs mode := by
  have hnamed : ∀ b ∈ artifactsOf definitions, Concerned definitions a b.id :=
    fun b hb => .inr ⟨b, hb, rfl⟩
  have hholds : ∀ store : σ,
      textOf store a.id = some (SelectionPayload.ofSelection mode s.nodes).toJson.render ∧
        Dependable (Concerned definitions a) store →
      ∀ b ∈ artifactsOf definitions,
        textOf (prepare store b) a.id =
            some (SelectionPayload.ofSelection mode s.nodes).toJson.render ∧
          Dependable (Concerned definitions a) (prepare store b) := by
    rintro store ⟨hkept, hdependable⟩ b hb
    refine ⟨?_, hdependable.prepare (hnamed b hb)⟩
    rcases textAt_prepare (hplain b hb) hkept (StoredGeometry.isBlank_render_object _) with
      h | ⟨⟨-, h⟩, -⟩
    · exact h.2
    · exact absurd h (hdependable.not_exposed (hnamed b hb))
  obtain ⟨store, ⟨hkept, hdependable⟩, hshape⟩ :=
    exists_store_of_get?_reload hload hholds ⟨htext, hstore⟩ hr
  obtain ⟨b, hb, hid⟩ := r.usesArtifact_iff.mp huses
  have hglobal : b.global = none :=
    hplain b (mem_artifactsOf_of_get?_reload hload hr hb) (congrArg (place σ) hid)
  have hread : ArtifactStore.read store b.id =
      .ok (some (SelectionPayload.ofSelection mode s.nodes).toJson.render) := by
    obtain ⟨data, hread⟩ := hdependable.exists_read (.inl rfl)
    rw [hid, hread, ← textAt_of_read hread]
    exact congrArg Except.ok hkept
  rw [hshape, hb, resolveShape_of_read hglobal hnodes hread]

section Commit

variable {e₀ : Engine δ σ} {definitions : List RegionDefinition}
  (hload : DefinitionSource.load e₀.source = .ok definitions) {a : Artifact} (ha : a.global = none)
  (hplain : ∀ b ∈ artifactsOf definitions, place σ b.id = place σ a.id → b.global = none)
  (hstore : Dependable (Concerned definitions a) e₀.store)
include hload ha hplain hstore

/-- **A load, a commit and another load:** both succeed, and the regions of the artifact have first
the committed shape and then what its nodes make in the mode that was stored. -/
theorem shapes_commitArtifact {s : Shape} (hnodes : ∀ node ∈ s.nodes, node.IsStorable) :
    let e₁ := e₀.reload.2
    let e₂ := (e₁.commitArtifact a s [] none).2
    (∃ n, (e₁.commitArtifact a s [] none).1 = .ok n) ∧ (∃ n, e₂.reload.1 = .ok n) ∧
      ∀ id r, e₂.index.get? id = some r → r.usesArtifact a.id = true →
        r.shape = s ∧ ∃ r', e₂.reload.2.index.get? id = some r' ∧
          r'.definition = r.definition ∧ r'.shape = s.rereadAs (storedMode e₁.store a s) := by
  intro e₁ e₂
  -- the commit writes the nodes in the mode that is stored, and puts the shape into force
  have hstore₁ : Dependable (Concerned definitions a) e₁.store := dependable_reload hload hstore
  obtain ⟨store, hwrite, hstore₂⟩ := hstore₁.exists_write (.inl rfl)
    (SelectionPayload.ofSelection (storedMode e₁.store a s) s.nodes).toJson.render
  have hsaved : saveGeometry e₁.store a (storedMode e₁.store a s) s.nodes = (.ok (), store) := by
    rw [saveGeometry_of_global_eq_none ha, hwrite]
  obtain ⟨hcommitted, hsource, hstored, hindex⟩ := commitArtifact_of_saved hsaved
  -- the next load finds the same definitions
  have hload₂ : DefinitionSource.load e₂.source = .ok definitions :=
    (congrArg DefinitionSource.load (hsource.trans (source_reload hload))).trans hload
  have htext : textOf e₂.store a.id =
      some (SelectionPayload.ofSelection (storedMode e₁.store a s) s.nodes).toJson.render := by
    rw [hstored, textOf, textAt_of_written hwrite, Function.update_self]
  refine ⟨⟨_, hcommitted⟩, ⟨_, congrArg Prod.fst (reload_eq hload₂)⟩, fun id r hr huses => ?_⟩
  rw [hindex, RegionIndex.get?_reshape] at hr
  obtain ⟨r₁, hr₁, rfl⟩ := Option.map_eq_some_iff.mp hr
  have huses₁ : r₁.usesArtifact a.id = true := by
    split at huses <;> exact huses
  rw [if_pos huses₁]
  obtain ⟨r', hr'⟩ :=
    (exists_get?_reload_iff hload₂).mpr ((exists_get?_reload_iff hload).mp ⟨r₁, hr₁⟩)
  have hdefinition : r'.definition = r₁.definition := by
    have hlast := definition_of_get?_reload hload₂ hr'
    rw [definition_of_get?_reload hload hr₁] at hlast
    exact (Option.some.inj hlast).symm
  have huses' : r'.usesArtifact a.id = true := by
    rw [Region.usesArtifact, Region.artifact, hdefinition]
    exact huses₁
  exact ⟨rfl, r', hr', hdefinition,
    shape_of_get?_reload hload₂ hplain (hstored ▸ hstore₂) hnodes htext hr' huses'⟩

/-- **When a committed shape survives a load.** Let a shape that came out of a selection be
committed to an artifact after a load, without a mode, and let the store not fail. Then the regions
of the artifact contain the same points after the next load as before if the mode that is stored, if
any, is that of the shape; else they do only if the shape is the single point at the origin. -/
theorem contains_reload_iff {mode : SelectionMode} {nodes : List Position} {s : Shape}
    (hmade : mode.shapeOf nodes none = .ok s)
    (hcoordinates : ∀ x ∈ s.coordinates, StorableCoordinate x) :
    let e₁ := e₀.reload.2
    let e₂ := (e₁.commitArtifact a s [] none).2
    (∃ n, (e₁.commitArtifact a s [] none).1 = .ok n) ∧ (∃ n, e₂.reload.1 = .ok n) ∧
      ∀ id r, e₂.index.get? id = some r → r.usesArtifact a.id = true →
        ∃ r', e₂.reload.2.index.get? id = some r' ∧ r'.definition = r.definition ∧
          ((∀ p, r'.contains p = r.contains p) ↔
            (∀ stored, loadGeometry e₁.store a = some stored → stored.mode = .ofShape s) ∨
              s.AtOrigin) := by
  intro e₁ e₂
  have hnumbers : ∀ x ∈ s.coordinates, x.isNaN = false :=
    fun x hx => isNaN_of_isFinite (hcoordinates x hx).1
  have hnodes := Shape.isStorable_nodes (Shape.rebuildable_of_shapeOf hmade hnumbers) hcoordinates
  obtain ⟨hcommitted, hloaded, hshapes⟩ := shapes_commitArtifact hload ha hplain hstore hnodes
  refine ⟨hcommitted, hloaded, fun id r hr huses => ?_⟩
  obtain ⟨hshape, r', hr', hdefinition, hshape'⟩ := hshapes id r hr huses
  refine ⟨r', hr', hdefinition, ?_⟩
  rw [← storedMode_eq_iff, ← Shape.contains_rereadAs_iff hmade hnumbers, ← hshape', ← hshape]
  rfl

end Commit

/-! ### A box and a wedge for the meadow -/

section Meadow

/-- The meadow starts in cuboid mode. -/
theorem mode_meadowEngine {stored : StoredGeometry}
    (h : loadGeometry (meadowEngine {}).reload.2.store meadowArtifact = some stored) :
    stored.mode = .cuboid := by
  have hstored : loadGeometry (meadowEngine {}).reload.2.store meadowArtifact =
      some ⟨.cuboid, [], .empty⟩ := by
    decide +kernel
  rw [hstored] at h
  rw [← Option.some.inj h]

theorem dependable_meadowEngine :
    Dependable (Concerned [meadow] meadowArtifact) (meadowEngine {}).store :=
  Dependable.of_memoryStore fun _ _ => ⟨rfl, rfl⟩

/-- A box. -/
def box : Shape := .cuboid ⟨⟨"world", 0, 0, 0⟩, ⟨"world", 10, 64, 10⟩⟩

/-- A box survives. -/
theorem contains_reload_iff_box :
    ∃ r r',
      ((meadowEngine {}).reload.2.commitArtifact meadowArtifact box [] none).2.index.get? meadow.id =
          some r ∧
        ((meadowEngine {}).reload.2.commitArtifact meadowArtifact box [] none).2.reload.2.index.get?
            meadow.id = some r' ∧
        ∀ p, r'.contains p = r.contains p := by
  have hmade : SelectionMode.cuboid.shapeOf box.nodes none = .ok box := by decide +kernel
  have hcoordinates : ∀ x ∈ box.coordinates, StorableCoordinate x := by
    have hall : ∀ x ∈ box.coordinates, isFinite x = true ∧ (Json.Number.float x).ReadsBack := by
      decide +kernel
    exact hall
  have hany : (((meadowEngine {}).reload.2.commitArtifact meadowArtifact box [] none).2.index.get?
      meadow.id).any (·.usesArtifact meadowArtifact.id) = true := by
    decide +kernel
  obtain ⟨-, -, hall⟩ := contains_reload_iff (load_meadowEngine {}) (a := meadowArtifact) rfl
    (fun b hb _ => global_artifactsOf_meadow hb) dependable_meadowEngine hmade hcoordinates
  obtain ⟨r, hr, huses⟩ := (Option.any_eq_true ..).mp hany
  obtain ⟨r', hr', -, hiff⟩ := hall meadow.id r hr huses
  exact ⟨r, r', hr, hr', hiff.mpr (.inl fun _ hstored => mode_meadowEngine hstored)⟩

/-- A wedge: half of the box, seen from above. -/
def wedge : Shape :=
  .polygonPrism ⟨0, 64, [⟨"world", 0, 0, 0⟩, ⟨"world", 10, 0, 0⟩, ⟨"world", 0, 0, 10⟩]⟩

/-- **A wedge does not survive.** It comes back as the box around it, with a point in it that was
outside before. -/
theorem wedge_becomes_box :
    SelectionMode.polygon.shapeOf wedge.nodes none = .ok wedge ∧
      ∃ r r',
        ((meadowEngine {}).reload.2.commitArtifact meadowArtifact wedge [] none).2.index.get? meadow.id =
            some r ∧
          r.usesArtifact meadowArtifact.id = true ∧
          ((meadowEngine {}).reload.2.commitArtifact meadowArtifact wedge [] none).2.reload.2.index.get?
              meadow.id = some r' ∧
          r.contains ⟨"world", 9, 5, 9⟩ = false ∧ r'.contains ⟨"world", 9, 5, 9⟩ = true := by
  have hmade : SelectionMode.polygon.shapeOf wedge.nodes none = .ok wedge := by decide +kernel
  have hnodes : ∀ node ∈ wedge.nodes, node.IsStorable := by
    have hall : ∀ node ∈ wedge.nodes, ∀ x ∈ node.coordinates,
        isFinite x = true ∧ (Json.Number.float x).ReadsBack := by
      decide +kernel
    exact hall
  have hany : (((meadowEngine {}).reload.2.commitArtifact meadowArtifact wedge [] none).2.index.get?
      meadow.id).any (·.usesArtifact meadowArtifact.id) = true := by
    decide +kernel
  have hmode : storedMode (meadowEngine {}).reload.2.store meadowArtifact wedge = .cuboid := by
    decide +kernel
  have hbox : (wedge.rereadAs .cuboid).contains ⟨"world", 9, 5, 9⟩ = true := by decide +kernel
  have hwedge : wedge.contains ⟨"world", 9, 5, 9⟩ = false := by decide +kernel
  obtain ⟨-, -, hshapes⟩ := shapes_commitArtifact (load_meadowEngine {}) (a := meadowArtifact) rfl
    (fun b hb _ => global_artifactsOf_meadow hb) dependable_meadowEngine hnodes
  obtain ⟨r, hr, huses⟩ := (Option.any_eq_true ..).mp hany
  obtain ⟨hshape, r', hr', -, hshape'⟩ := hshapes meadow.id r hr huses
  rw [hmode] at hshape'
  refine ⟨hmade, r, r', hr, huses, hr', ?_, ?_⟩
  · rw [Region.contains, hshape, hwedge]
  · rw [Region.contains, hshape', hbox]

end Meadow

end Engine

end RegionPolicy
