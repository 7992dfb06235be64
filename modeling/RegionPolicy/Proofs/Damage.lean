import RegionPolicy.Proofs.Slots

/-!
# Damage stays in its place

A text can be missing, can be nonsense, or can be out of reach, and then the regions that have their
shapes from it get other shapes than they should. Nothing else comes of it. Two things have to be
said for that. Loading goes to the store artifact by artifact, and what it does in one slot does not
depend on another; so two stores that differ at one place give the same shapes for everything that
is kept elsewhere, and differ at that place only when all is done. And arranging never looks at a
shape: exchanging shapes before regions are arranged, or afterwards, is the same.

Which settings the artifacts have makes no difference here, and neither does what the texts say.

## Main definitions

* `SlotStore.SameElsewhere` — stores that differ at one place at most.
* `Draft.redrawn`, `Region.redrawn`, `RegionIndex.redrawn` — other shapes.
* `keptAt` — the shape of a region is kept at a place.

## Main results

* `arrange_map_redrawn` — arranging never looks at a shape.
* `Engine.redrawn_draftsOf` — drafts differ only in the shapes that are kept at the place.
* `Engine.reload_elsewhere` — damage at one place harms only the shapes that are kept there.
-/

namespace RegionPolicy

/-! ### Stores that differ at one place -/

namespace SlotStore

open ArtifactStore TextStore

variable {σ : Type} [ArtifactStore σ] [TextStore σ] [SlotStore σ] {s s' : σ} {a : Artifact}
  {p : String}

/-- Stores that differ at one place at most. -/
def SameElsewhere (p : String) (s s' : σ) : Prop := ∀ q, q ≠ p → slot s q = slot s' q

namespace SameElsewhere

theorem prepare (h : SameElsewhere p s s') (a : Artifact) :
    SameElsewhere p (prepare s a) (prepare s' a) := by
  intro q hq
  by_cases hplace : q = place σ a.id
  · rw [hplace, slot_prepare_self, slot_prepare_self, h _ (hplace ▸ hq)]
  · rw [slot_prepare_of_ne hplace, slot_prepare_of_ne hplace, h q hq]

theorem resolveShape (h : SameElsewhere p s s') (artifact : Option Artifact) :
    SameElsewhere p (resolveShape s artifact).2 (resolveShape s' artifact).2 := by
  cases artifact with
  | none => exact h
  | some a => exact h.prepare a

end SameElsewhere

/-- In memory that means: all other artifacts have the same texts, and reading and writing them
fails alike. -/
theorem sameElsewhere_memoryStore_iff {s s' : MemoryStore} {id : ArtifactId} :
    SameElsewhere id.text s s' ↔ ∀ other, other ≠ id →
      s.blobs.get? other = s'.blobs.get? other ∧
        s.unreadable.contains other = s'.unreadable.contains other ∧
        s.unwritable.contains other = s'.unwritable.contains other := by
  constructor
  · intro h other hne
    have hslot := h other.text fun htext => hne (congrArg ArtifactId.mk htext)
    exact ⟨congrArg MemorySlot.text hslot, congrArg MemorySlot.unreadable hslot,
      congrArg MemorySlot.unwritable hslot⟩
  · intro h q hq
    obtain ⟨htext, hunreadable, hunwritable⟩ := h ⟨q⟩ fun hid => hq (congrArg ArtifactId.text hid)
    exact (MemorySlot.mk.injEq ..).mpr ⟨htext, hunreadable, hunwritable⟩

end SlotStore

/-! ### Other shapes -/

/-- The draft with another shape, found from its definition and its shape. -/
def Draft.redrawn (f : RegionDefinition → Shape → Shape) (d : Draft) : Draft :=
  { d with shape := f d.definition d.shape }

/-- The region with another shape, found in the same way. -/
def Region.redrawn (f : RegionDefinition → Shape → Shape) (r : Region) : Region :=
  r.withShape (f r.definition r.shape)

/-- The index with all regions redrawn. -/
def RegionIndex.redrawn (f : RegionDefinition → Shape → Shape) (index : RegionIndex) :
    RegionIndex :=
  index.mapValues fun _ r => r.redrawn f

section Redrawn

variable (f : RegionDefinition → Shape → Shape) (index : RegionIndex)

theorem RegionIndex.get?_redrawn (id : RegionId) :
    (index.redrawn f).get? id = (index.get? id).map (Region.redrawn f) :=
  SortedMap.get?_mapValues ..

theorem RegionIndex.contains_redrawn (id : RegionId) :
    (index.redrawn f).contains id = index.contains id := by
  rw [SortedMap.contains, SortedMap.contains, get?_redrawn, Option.isSome_map]

theorem RegionIndex.keys_redrawn : (index.redrawn f).keys = index.keys := by
  rw [SortedMap.keys, SortedMap.keys, redrawn, SortedMap.mapValues, List.map_map]
  rfl

/-- What a region has from above does not depend on where that is. -/
theorem Region.redrawn_under (above : Option Region) (definition : RegionDefinition)
    (shape : Shape) :
    (Region.under above definition shape).redrawn f =
      .under (above.map (Region.redrawn f)) definition (f definition shape) := by
  cases above <;> rfl

theorem settle_redrawn (d : Draft) :
    settle (d.redrawn f) (index.redrawn f) = (settle d index).redrawn f := by
  refine SortedMap.ext_get? fun id => ?_
  have habove : d.definition.parent.bind (index.redrawn f).get? =
      (d.definition.parent.bind index.get?).map (Region.redrawn f) := by
    cases d.definition.parent with
    | none => rfl
    | some parent => exact index.get?_redrawn f parent
  rw [RegionIndex.get?_redrawn, get?_settle, get?_settle]
  show (if id = d.id then
    some (Region.under (d.definition.parent.bind (index.redrawn f).get?) d.definition
      (f d.definition d.shape)) else _) = _
  split
  · rw [habove, Option.map_some, Region.redrawn_under]
  · exact index.get?_redrawn f id

theorem foldr_settle_redrawn (l : List Draft) :
    (l.map (Draft.redrawn f)).foldr settle (index.redrawn f) =
      RegionIndex.redrawn f (l.foldr settle index) := by
  induction l with
  | nil => rfl
  | cons d rest ih => rw [List.map_cons, List.foldr_cons, List.foldr_cons, ih, settle_redrawn]

variable {drafts : SortedMap RegionId Draft}

theorem unsettledChain_redrawn (hdrafts : drafts.Keyed Draft.id) (id : RegionId) :
    unsettledChain (drafts.mapValues fun _ d => d.redrawn f) (index.redrawn f) id =
      (unsettledChain drafts index id).map (Draft.redrawn f) := by
  simp only [unsettledChain, RegionIndex.contains_redrawn]
  exact SortedMap.follow_mapValues hdrafts (f := fun _ d => d.redrawn f) (fun _ _ => rfl) _

theorem foldl_settleChain_redrawn (hdrafts : drafts.Keyed Draft.id) (ids : List RegionId) :
    ids.foldl (settleChain (drafts.mapValues fun _ d => d.redrawn f)) (index.redrawn f) =
      RegionIndex.redrawn f (ids.foldl (settleChain drafts) index) := by
  induction ids generalizing index with
  | nil => rfl
  | cons id rest ih =>
    rw [List.foldl_cons, List.foldl_cons, ← ih, settleChain, unsettledChain_redrawn f index hdrafts,
      foldr_settle_redrawn]
    rfl

theorem linkChildren_redrawn :
    linkChildren (index.redrawn f) = (linkChildren index).redrawn f := by
  refine SortedMap.ext_get? fun id => ?_
  have hchildren : childrenOf (index.redrawn f) id = childrenOf index id := by
    refine SortedSet.ext_mem fun child => ?_
    rw [mem_childrenOf, mem_childrenOf, RegionIndex.get?_redrawn]
    cases index.get? child with
    | none => rfl
    | some r =>
      constructor
      · rintro ⟨_, hs, hparent⟩
        obtain rfl := Option.some.inj hs
        exact ⟨r, rfl, hparent⟩
      · rintro ⟨_, hs, hparent⟩
        obtain rfl := Option.some.inj hs
        exact ⟨_, rfl, hparent⟩
  rw [RegionIndex.get?_redrawn, get?_linkChildren, get?_linkChildren, RegionIndex.get?_redrawn,
    hchildren, Option.map_map, Option.map_map]
  rfl

end Redrawn

/-- **Arranging never looks at a shape.** -/
theorem arrange_map_redrawn (f : RegionDefinition → Shape → Shape) (drafts : List Draft) :
    arrange (drafts.map (Draft.redrawn f)) = (arrange drafts).redrawn f := by
  have hmap : SortedMap.ofList ((drafts.map (Draft.redrawn f)).map fun d => (d.id, d)) =
      (SortedMap.ofList (drafts.map fun d => (d.id, d))).mapValues fun _ d => d.redrawn f := by
    refine SortedMap.ext_get? fun id => ?_
    rw [SortedMap.get?_mapValues, get?_ofList_drafts, get?_ofList_drafts, List.filter_map,
      List.getLast?_map]
    rfl
  have hids : (drafts.map (Draft.redrawn f)).map Draft.id = drafts.map Draft.id := by
    rw [List.map_map]
    rfl
  rw [arrange, hmap, hids]
  show linkChildren ((drafts.map Draft.id).foldl _ (RegionIndex.redrawn f ∅)) = _
  rw [foldl_settleChain_redrawn f ∅ (keyed_ofList_drafts drafts), linkChildren_redrawn]
  rfl

/-! ### Loads -/

/-- Whether the shape of a region is kept at a place. -/
def keptAt (σ : Type) [ArtifactStore σ] [TextStore σ] (p : String) (d : RegionDefinition) : Bool :=
  d.artifact.any fun a => TextStore.place σ a.id = p

/-- No shape at all for what is kept at a place. -/
def hidden (σ : Type) [ArtifactStore σ] [TextStore σ] (p : String) (d : RegionDefinition)
    (shape : Shape) : Shape :=
  if keptAt σ p d then .empty else shape

/-- In memory that is so for the regions of one artifact. -/
theorem keptAt_memoryStore (id : ArtifactId) (r : Region) :
    keptAt MemoryStore id.text r.definition = r.usesArtifact id := by
  show (r.definition.artifact.any fun a =>
    TextStore.place MemoryStore a.id = TextStore.place MemoryStore id) = _
  simp only [MemoryStore.place_inj, Region.usesArtifact, Region.artifact]

/-- Regions that are the same once shapes are hidden agree in all other fields, and in the shape if
it is not hidden. -/
theorem eq_withShape_of_redrawn {σ : Type} [ArtifactStore σ] [TextStore σ] {p : String}
    {r r' : Region} (h : r'.redrawn (hidden σ p) = r.redrawn (hidden σ p)) :
    r' = r.withShape r'.shape ∧ (keptAt σ p r.definition = false → r'.shape = r.shape) := by
  have hdefinition := congrArg Region.definition h
  have hshape := congrArg Region.shape h
  have hfields := congrArg (Region.withShape · r'.shape) h
  refine ⟨hfields, fun hkept => ?_⟩
  change r'.definition = r.definition at hdefinition
  change hidden σ p r'.definition r'.shape = hidden σ p r.definition r.shape at hshape
  rwa [hdefinition, hidden, hidden, hkept] at hshape

namespace Engine

open ArtifactStore TextStore SlotStore

variable {δ σ : Type} [ArtifactStore σ] [TextStore σ] [SlotStore σ] {s s' : σ} {p : String}

/-- Where the stores are the same, so are the shapes. -/
theorem hidden_resolveShape (h : SameElsewhere p s s') (d : RegionDefinition) :
    hidden σ p d (resolveShape s d.artifact).1 = hidden σ p d (resolveShape s' d.artifact).1 := by
  rw [hidden, hidden]
  split
  · rfl
  · rename_i hkept
    cases hartifact : d.artifact with
    | none => rfl
    | some a =>
      refine resolveShape_congr (h _ ?_)
      rintro rfl
      simp [keptAt, hartifact] at hkept

/-- **Drafts differ only in the shapes that are kept at the place,** and afterwards the stores still
differ there only. -/
theorem redrawn_draftsOf (h : SameElsewhere p s s') (definitions : List RegionDefinition) :
    (draftsOf s definitions).1.map (Draft.redrawn (hidden σ p)) =
        (draftsOf s' definitions).1.map (Draft.redrawn (hidden σ p)) ∧
      SameElsewhere p (draftsOf s definitions).2 (draftsOf s' definitions).2 := by
  induction definitions generalizing s s' with
  | nil => exact ⟨rfl, h⟩
  | cons d rest ih =>
    rw [draftsOf, draftsOf]
    split
    · exact ih h
    · obtain ⟨hdrafts, hstores⟩ := ih (h.resolveShape d.artifact)
      refine ⟨?_, hstores⟩
      simp only [List.map_cons, hdrafts, Draft.redrawn, hidden_resolveShape h d]

variable [DefinitionSource δ] {e : Engine δ σ}

/-- **Damage at one place harms only the shapes that are kept there.** Two stores may differ at a
place in any way: in the text, in whether there is one, and in whether it can be read or written.
Loading from either of them succeeds or fails alike, with the same count and the same ids; the
regions agree in everything but the shape, and in the shape too if it is not kept at that place; and
the stores differ only at that place afterwards. -/
theorem reload_elsewhere (h : SameElsewhere p e.store s') :
    { e with store := s' }.reload.1 = e.reload.1 ∧
      { e with store := s' }.reload.2.index.keys = e.reload.2.index.keys ∧
      (∀ id r, e.reload.2.index.get? id = some r → ∃ shape,
        { e with store := s' }.reload.2.index.get? id = some (r.withShape shape) ∧
          (keptAt σ p r.definition = false → shape = r.shape)) ∧
      SameElsewhere p e.reload.2.store { e with store := s' }.reload.2.store := by
  cases hload : DefinitionSource.load e.source with
  | error failure =>
    have hload' : DefinitionSource.load { e with store := s' }.source = .error failure := hload
    rw [reload_eq_error hload, reload_eq_error hload']
    exact ⟨rfl, rfl, fun id r hr => ⟨r.shape, hr, fun _ => rfl⟩, h⟩
  | ok definitions =>
    have hload' : DefinitionSource.load { e with store := s' }.source = .ok definitions := hload
    obtain ⟨hdrafts, hstores⟩ := redrawn_draftsOf h definitions
    have hindex : { e with store := s' }.reload.2.index.redrawn (hidden σ p) =
        e.reload.2.index.redrawn (hidden σ p) := by
      rw [index_reload hload, index_reload hload', ← arrange_map_redrawn, ← arrange_map_redrawn,
        hdrafts]
    have hkeys : { e with store := s' }.reload.2.index.keys = e.reload.2.index.keys := by
      rw [← RegionIndex.keys_redrawn (hidden σ p), hindex, RegionIndex.keys_redrawn]
    refine ⟨?_, hkeys, fun id r hr => ?_, ?_⟩
    · have hsize : (arrange (draftsOf s' definitions).1).size =
          (arrange (draftsOf e.store definitions).1).size := by
        rw [← index_reload hload, ← index_reload hload', ← SortedMap.length_keys,
          ← SortedMap.length_keys, hkeys]
      rw [reload_eq hload, reload_eq hload', hsize]
    · have hget := congrArg (SortedMap.get? · id) hindex
      simp only [RegionIndex.get?_redrawn, hr, Option.map_some] at hget
      obtain ⟨r', hr', hredrawn⟩ := Option.map_eq_some_iff.mp hget
      obtain ⟨hfields, hshape⟩ := eq_withShape_of_redrawn hredrawn
      exact ⟨r'.shape, hfields ▸ hr', hshape⟩
    · rw [store_reload hload, store_reload hload']
      exact hstores

/-! ### A broken sky over a meadow -/

section Storm

/-- An engine that loads a meadow and the sky over it. -/
def landscapeEngine (s : MemoryStore) : Engine MemorySource MemoryStore :=
  start { definitions := meadow :: skyRegions } s .standard 64 true

/-- The texts of the meadow and of the sky. -/
def calmStore : MemoryStore := { blobs := meadowStore.blobs.insert skyArtifact.id "[]" }

/-- The same with another text of the sky, which cannot be read. -/
def stormStore : MemoryStore where
  blobs := meadowStore.blobs.insert skyArtifact.id "thunder"
  unreadable := .ofList [skyArtifact.id]

theorem sameElsewhere_stormStore : SameElsewhere skyArtifact.id.text calmStore stormStore := by
  refine sameElsewhere_memoryStore_iff.mpr fun other hne => ⟨?_, ?_, rfl⟩
  · simp only [calmStore, stormStore, SortedMap.get?_insert_of_ne _ _ hne]
  · have hother : other ∉ (SortedSet.ofList [skyArtifact.id] : SortedSet ArtifactId) := by
      simpa using hne
    exact (Bool.eq_false_iff.mpr fun h => hother (SortedSet.contains_iff.mp h)).symm

theorem reload_elsewhere_storm :
    SameElsewhere skyArtifact.id.text (landscapeEngine calmStore).store stormStore ∧
      { landscapeEngine calmStore with store := stormStore }.reload.1 =
        (landscapeEngine calmStore).reload.1 ∧
      ∃ r, (landscapeEngine calmStore).reload.2.index.get? meadow.id = some r ∧
        { landscapeEngine calmStore with store := stormStore }.reload.2.index.get? meadow.id =
          some r := by
  obtain ⟨hcount, -, hregions, -⟩ :=
    reload_elsewhere (e := landscapeEngine calmStore) sameElsewhere_stormStore
  have hload : DefinitionSource.load (landscapeEngine calmStore).source =
      .ok (meadow :: skyRegions) := rfl
  have hid : meadow.id ∈ idsOf (meadow :: skyRegions) := by decide
  obtain ⟨r, hr⟩ := (exists_get?_reload_iff hload).mpr hid
  obtain ⟨shape, hr', hshape⟩ := hregions meadow.id r hr
  have hdefinition : r.definition = meadow :=
    Option.some.inj (definition_of_get?_reload hload hr).symm
  have hkept : keptAt MemoryStore skyArtifact.id.text r.definition = false := by
    rw [hdefinition]
    rfl
  rw [hshape hkept] at hr'
  exact ⟨sameElsewhere_stormStore, hcount, r, hr, hr'⟩

end Storm

end Engine

end RegionPolicy
