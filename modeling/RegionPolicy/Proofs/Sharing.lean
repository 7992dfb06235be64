import RegionPolicy.Proofs.Reshaping
import RegionPolicy.Proofs.Slots
import RegionPolicy.Proofs.Survival

/-!
# Regions that share an artifact

A shape is stored for an artifact, and several regions can share one. After a load all of them have
the shape that is stored. A commit for a region stores a shape for all of them, and puts it into
force for the one: the others keep theirs until the next load, and are out of step with the store
unless the new shape contains what the old one did. A commit for the artifact would have put it into
force for all.

This is about a store that does not fail, and about artifacts that do not get into each other's way.

## Main results

* `Engine.shape_of_get?_reload_eq` — after a load, regions have the shapes that are stored.
* `Engine.commitRegion_of_saved` — what a commit for a region in force does when its text is
  written.
* `Shape.rereadAs_ofShape` — a shape that came out of a selection is read as it was stored.
* `Engine.commitRegion_reload` — what a commit for a region does after a load.
* `Engine.contains_commitRegion_iff` — which regions it leaves in step with the store.
-/

namespace RegionPolicy

open ArtifactStore TextStore SlotStore

/-- **A shape that came out of a selection is read as it was stored,** in the mode that is its
own. -/
theorem Shape.rereadAs_ofShape {mode : SelectionMode} {nodes : List Position} {s : Shape}
    (hmade : mode.shapeOf nodes none = .ok s) (hnumbers : ∀ x ∈ s.coordinates, x.isNaN = false) :
    s.rereadAs (.ofShape s) = s := by
  obtain ⟨rebuilt, hshape, -, hexact⟩ :=
    exists_rebuilt (rebuildable_of_shapeOf hmade hnumbers) hnumbers
  exact (rereadAs_of_ok hshape).trans (hexact (settled_of_shapeOf hmade))

/-- What a text means for an artifact depends on its id and its settings only. -/
theorem ArtifactStore.resolveShape_congr_artifact {σ : Type} [ArtifactStore σ] [TextStore σ]
    [SlotStore σ] {a b : Artifact} (hid : a.id = b.id) (hglobal : a.global = b.global) (s : σ) :
    (resolveShape s (some a)).1 = (resolveShape s (some b)).1 := by
  have hgeometry : geometryOf a = geometryOf b := by
    funext data
    rw [geometryOf, geometryOf, hglobal]
  have hshape : shapeOr a = shapeOr b := by
    funext stored
    cases stored with
    | none => simp only [shapeOr, hglobal]
    | some stored => rfl
  rw [resolveShape_eq, resolveShape_eq, shapeIn, shapeIn, hid, prepared_congr hglobal, hgeometry,
    hshape]

namespace Engine

variable {δ σ : Type} [ArtifactStore σ]

/-! ### Commits for a region in force -/

/-- **What a commit for a region in force does when its text is written:** the shape is in force for
this region and for no other. -/
theorem commitRegion_of_saved {e : Engine δ σ} {r : Region} {a : Artifact} {shape : Shape}
    {store : σ} (hr : e.index.get? r.id = some r) (ha : r.definition.artifact = some a)
    (h : saveGeometry e.store a (.ofShape shape) shape.nodes = (.ok (), store)) :
    (e.commitRegion r.definition shape [] none).1 = .ok () ∧
      (e.commitRegion r.definition shape [] none).2.store = store ∧
      ∀ id, (e.commitRegion r.definition shape [] none).2.index.get? id =
        if id = r.id then some (r.withShape shape) else e.index.get? id := by
  have heq : e.commitRegion r.definition shape [] none =
      (.ok (), { e with store, index := e.index.replaceShape r.definition shape }.invalidate
        r.definition.id) := by
    have hsaved : saveGeometry e.store a (none.getD (.ofShape shape)) (nodesFor [] shape) =
      (.ok (), store) := h
    simp only [commitRegion, ha, hsaved]
  rw [heq]
  exact ⟨rfl, rfl, fun id => RegionIndex.get?_replaceShape_of_get? hr shape id⟩

/-! ### Loads -/

variable [TextStore σ] [DefinitionSource δ]

section Load

variable [SlotStore σ] {e₀ : Engine δ σ} {definitions : List RegionDefinition}
  (hload : DefinitionSource.load e₀.source = .ok definitions)
  (hagreeing : Agreeing σ (artifactsOf definitions))
include hload hagreeing

/-- **After a load, regions have the shapes that are stored.** -/
theorem shape_of_get?_reload_eq {id : RegionId} {r : Region}
    (hr : e₀.reload.2.index.get? id = some r) :
    r.shape = (resolveShape e₀.reload.2.store r.definition.artifact).1 := by
  have hshape : r.shape = (resolveShape e₀.store r.definition.artifact).1 := by
    rw [index_reload hload] at hr
    obtain ⟨d, hd, hdefinition, hshape⟩ := draft_of_get?_arrange hr
    have hmem := (List.mem_filter.mp (List.mem_of_getLast? hd)).1
    rw [drafts_draftsOf hagreeing] at hmem
    obtain ⟨definition, -, rfl⟩ := List.mem_map.mp hmem
    rw [hshape, hdefinition]
  rw [hshape, store_reload hload, store_draftsOf]
  cases hartifact : r.definition.artifact with
  | none => rfl
  | some b =>
    have hb := mem_artifactsOf_of_get?_reload hload hr hartifact
    exact (resolveShape_foldl_prepare (fun a ha => hagreeing a ha b hb) e₀.store).symm

/-- Regions that share an artifact have the same shape after a load. -/
theorem shape_of_get?_reload_of_usesArtifact {a : Artifact} (ha : a ∈ artifactsOf definitions)
    {id : RegionId} {r : Region} (hr : e₀.reload.2.index.get? id = some r)
    (huses : r.usesArtifact a.id = true) :
    r.shape = (resolveShape e₀.reload.2.store (some a)).1 := by
  obtain ⟨b, hartifact, hid⟩ := r.usesArtifact_iff.mp huses
  have hb := mem_artifactsOf_of_get?_reload hload hr hartifact
  rw [shape_of_get?_reload_eq hload hagreeing hr, hartifact]
  exact resolveShape_congr_artifact hid (hagreeing b hb a ha (congrArg (place σ) hid)) _

end Load

/-! ### A commit after a load -/

section Commit

variable {e₀ : Engine δ σ} {definitions : List RegionDefinition}
  (hload : DefinitionSource.load e₀.source = .ok definitions) {r₀ : Region}
  (hr₀ : e₀.reload.2.index.get? r₀.id = some r₀) {a : Artifact}
  (ha : r₀.definition.artifact = some a) (hplain : a.global = none)
  (hstore : Dependable (Concerned definitions a) e₀.store)
include hload hr₀ ha hplain hstore

/-- **A commit after a load:** it succeeds, the nodes of the shape are what is stored from then on,
and of the regions in force none has changed but the one that it was for. -/
theorem commitRegion_reload {s : Shape} (hnodes : ∀ node ∈ s.nodes, node.IsStorable) :
    let e₁ := e₀.reload.2
    let e₂ := (e₁.commitRegion r₀.definition s [] none).2
    (e₁.commitRegion r₀.definition s [] none).1 = .ok () ∧
      (resolveShape e₂.store (some a)).1 = s.rereadAs (.ofShape s) ∧
      ∀ id, e₂.index.get? id = if id = r₀.id then some (r₀.withShape s) else e₁.index.get? id := by
  intro e₁ e₂
  have hstore₁ : Dependable (Concerned definitions a) e₁.store := dependable_reload hload hstore
  obtain ⟨store, hwrite, hstore₂⟩ := hstore₁.exists_write (.inl rfl)
    (SelectionPayload.ofSelection (.ofShape s) s.nodes).toJson.render
  have hsaved : saveGeometry e₁.store a (.ofShape s) s.nodes = (.ok (), store) := by
    rw [saveGeometry_of_global_eq_none hplain, hwrite]
  obtain ⟨hcommitted, hstored, hindex⟩ := commitRegion_of_saved hr₀ ha hsaved
  refine ⟨hcommitted, ?_, hindex⟩
  rw [hstored]
  exact resolveShape_of_read hplain hnodes (hstore₂.read_of_written (.inl rfl) hwrite)

/-- **Which regions a commit leaves in step with the store.** Let a shape that came out of a
selection be committed, after a load, for a region in force whose artifact is not world-wide, and
let the store not fail. The commit succeeds, and of the regions that share the artifact the one that
it was for contains just the points of the shape that is stored; any other does so only if the new
shape contains the points that the old one contained. -/
theorem contains_commitRegion_iff [SlotStore σ] (hagreeing : Agreeing σ (artifactsOf definitions))
    {mode : SelectionMode} {nodes : List Position} {s : Shape} (hmade : mode.shapeOf nodes none = .ok s)
    (hcoordinates : ∀ x ∈ s.coordinates, StorableCoordinate x) :
    let e₁ := e₀.reload.2
    let e₂ := (e₁.commitRegion r₀.definition s [] none).2
    (e₁.commitRegion r₀.definition s [] none).1 = .ok () ∧
      ∀ id r, e₂.index.get? id = some r → r.usesArtifact a.id = true →
        ((∀ p, r.contains p = (resolveShape e₂.store (some a)).1.contains p) ↔
          id = r₀.id ∨ ∀ p, (resolveShape e₁.store (some a)).1.contains p = s.contains p) := by
  intro e₁ e₂
  have hnumbers : ∀ x ∈ s.coordinates, x.isNaN = false :=
    fun x hx => isNaN_of_isFinite (hcoordinates x hx).1
  have hnodes := Shape.isStorable_nodes (Shape.rebuildable_of_shapeOf hmade hnumbers) hcoordinates
  obtain ⟨hcommitted, hstored, hindex⟩ :=
    commitRegion_reload hload hr₀ ha hplain hstore hnodes
  rw [Shape.rereadAs_ofShape hmade hnumbers] at hstored
  refine ⟨hcommitted, fun id r hr huses => ?_⟩
  rw [hstored]
  rw [hindex] at hr
  by_cases hid : id = r₀.id
  · rw [if_pos hid] at hr
    obtain rfl := Option.some.inj hr
    exact iff_of_true (fun _ => rfl) (.inl hid)
  · rw [if_neg hid] at hr
    have hshape := shape_of_get?_reload_of_usesArtifact hload hagreeing
      (mem_artifactsOf_of_get?_reload hload hr₀ ha) hr huses
    rw [or_iff_right hid, ← hshape]
    rfl

end Commit

/-! ### A box for a meadow, which has a paddock -/

section Paddock

theorem isStorable_box : ∀ x ∈ box.coordinates, StorableCoordinate x := by
  have hall : ∀ x ∈ box.coordinates, isFinite x = true ∧ (Json.Number.float x).ReadsBack := by
    decide +kernel
  exact hall

theorem shapeOf_box : SelectionMode.cuboid.shapeOf box.nodes none = .ok box := by
  decide +kernel

/-- An engine that loads the meadow, and other regions. -/
def meadowAnd (others : List RegionDefinition) : Engine MemorySource MemoryStore :=
  start { definitions := meadow :: others } {} .standard 64 true

theorem load_meadowAnd (others : List RegionDefinition) :
    DefinitionSource.load (meadowAnd others).source = .ok (meadow :: others) := rfl

theorem dependable_meadowAnd (others : List RegionDefinition) :
    Dependable (Concerned (meadow :: others) meadowArtifact) (meadowAnd others).store :=
  Dependable.of_memoryStore fun _ _ => ⟨rfl, rfl⟩

/-- The meadow is in force after a load. -/
theorem exists_get?_meadow (others : List RegionDefinition)
    (hothers : ∀ d ∈ others, d.id ≠ meadow.id) :
    ∃ r, (meadowAnd others).reload.2.index.get? r.id = some r ∧ r.definition = meadow := by
  have hmeadow : (meadow :: others).filter (fun d => d.id = meadow.id) = [meadow] := by
    rw [List.filter_cons_of_pos (by simp), List.filter_eq_nil_iff.mpr (by simpa using hothers)]
  have hid : meadow.id ∈ idsOf (meadow :: others) := by
    rw [idsOf, List.mem_dedup]
    exact List.mem_filter.mpr ⟨List.mem_cons_self, by decide⟩
  obtain ⟨r, hr⟩ := (exists_get?_reload_iff (load_meadowAnd others)).mpr hid
  have hdefinition := definition_of_get?_reload (load_meadowAnd others) hr
  rw [hmeadow] at hdefinition
  have hsame : r.definition = meadow := (Option.some.inj hdefinition).symm
  refine ⟨r, ?_, hsame⟩
  rw [Region.id, hsame]
  exact hr

/-- The engine after a box was committed for the meadow. -/
def boxed (others : List RegionDefinition) : Engine MemorySource MemoryStore :=
  ((meadowAnd others).reload.2.commitRegion meadow box [] none).2

/-- A meadow that has its artifact for itself is in step with the store. -/
theorem contains_commitRegion_iff_meadow :
    ∃ r, (boxed []).index.get? meadow.id = some r ∧ r.usesArtifact meadowArtifact.id = true ∧
      ∀ p, r.contains p = (resolveShape (boxed []).store (some meadowArtifact)).1.contains p := by
  have hany : ((boxed []).index.get? meadow.id).any (·.usesArtifact meadowArtifact.id) = true := by
    decide +kernel
  have hagreeing : Agreeing MemoryStore (artifactsOf [meadow]) := by
    intro a ha b hb _
    rw [global_artifactsOf_meadow ha, global_artifactsOf_meadow hb]
  obtain ⟨r₀, hr₀, hmeadow⟩ := exists_get?_meadow [] (by simp)
  obtain ⟨-, hsteps⟩ := contains_commitRegion_iff (load_meadowAnd []) hr₀
    (congrArg RegionDefinition.artifact hmeadow) rfl (dependable_meadowAnd []) hagreeing shapeOf_box
    isStorable_box
  rw [hmeadow] at hsteps
  obtain ⟨r, hr, huses⟩ := (Option.any_eq_true ..).mp hany
  have hid : meadow.id = r₀.id := (congrArg RegionDefinition.id hmeadow).symm
  exact ⟨r, hr, huses, (hsteps meadow.id r hr huses).mpr (.inl hid)⟩

/-- **A paddock that shares the artifact of the meadow is left behind.** A point of the box that is
stored now is not in the paddock. -/
theorem contains_paddock_boxed :
    SelectionMode.cuboid.shapeOf box.nodes none = .ok box ∧
      Agreeing MemoryStore (artifactsOf [meadow, paddock]) ∧
      ((meadowAnd [paddock]).reload.2.commitRegion meadow box [] none).1 = .ok () ∧
      ∃ r, (boxed [paddock]).index.get? paddock.id = some r ∧
        r.usesArtifact meadowArtifact.id = true ∧
        r.contains ⟨"world", 5, 5, 5⟩ = false ∧
        (resolveShape (boxed [paddock]).store (some meadowArtifact)).1.contains
          ⟨"world", 5, 5, 5⟩ = true := by
  have hany : ((boxed [paddock]).index.get? paddock.id).any (fun r =>
      r.usesArtifact meadowArtifact.id && !r.contains ⟨"world", 5, 5, 5⟩) = true := by
    decide +kernel
  have hbox : box.contains ⟨"world", 5, 5, 5⟩ = true := by decide +kernel
  have hnumbers : ∀ x ∈ box.coordinates, x.isNaN = false :=
    fun x hx => isNaN_of_isFinite (isStorable_box x hx).1
  obtain ⟨r₀, hr₀, hmeadow⟩ := exists_get?_meadow [paddock] (by decide)
  obtain ⟨hcommitted, hstored, -⟩ := commitRegion_reload (load_meadowAnd [paddock]) hr₀
    (congrArg RegionDefinition.artifact hmeadow) rfl (dependable_meadowAnd [paddock])
    (Shape.isStorable_nodes (Shape.rebuildable_of_shapeOf shapeOf_box hnumbers) isStorable_box)
  rw [hmeadow] at hcommitted hstored
  rw [Shape.rereadAs_ofShape shapeOf_box hnumbers] at hstored
  obtain ⟨r, hr, hpaddock⟩ := (Option.any_eq_true ..).mp hany
  rw [Bool.and_eq_true, Bool.not_eq_true'] at hpaddock
  have hplain : ∀ a ∈ artifactsOf [meadow, paddock], a.global = none := by decide
  refine ⟨shapeOf_box, fun a ha b hb _ => ?_, hcommitted, r, hr, hpaddock.1, hpaddock.2, ?_⟩
  · rw [hplain a ha, hplain b hb]
  · show (resolveShape _ (some meadowArtifact)).1.contains _ = true
    rw [boxed, hstored, hbox]

end Paddock

end Engine

end RegionPolicy
