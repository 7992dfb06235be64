import RegionPolicy.Proofs.Invalidation
import RegionPolicy.Proofs.Texts

/-!
# What a commit leaves alone

A commit that succeeds gives new shapes to regions in force: to the one that it names, or to all
that share an artifact. It touches no other region, and nothing but the shapes of these; handlers,
presences and decisions are out of its reach, and of the stored texts it writes one at most. What
bears on a region is not a matter of shapes, so that stays what it was as well. Only a commit for a
region that was not in force does more, and all it does is to bring that region into force.

Nothing of this happens in silence. Every region that is no longer what it was is named in the feed
of changes, and nothing is kept for it any more. That the feed is there to be written to is what a
run preserves: nobody can stop listening to it.

## Main definitions

* `TextStore.SameBut` — two stores have the same texts, but for one artifact at most.
* `Engine.Confined` — what a commit may change, and what it has to say of it.

## Main results

* `Engine.listening_after` — a run never ends the feed of changes.
* `Engine.confined_foldl_invalidate` — a change of regions that are forgotten is confined.
* `Engine.commits_confined` — what every commit that succeeds does, in every state.
-/

namespace RegionPolicy

variable {δ σ : Type}

/-! ### Stored texts -/

/-- Two stores have the same texts, but for that of one artifact at most. -/
def TextStore.SameBut [ArtifactStore σ] [TextStore σ] (artifact : Option ArtifactId)
    (s s' : σ) : Prop :=
  ∀ p, (∀ id ∈ artifact, p ≠ TextStore.place σ id) → TextStore.textAt s' p = TextStore.textAt s p

/-- Storing geometry changes no text but that of the artifact. -/
theorem TextStore.sameBut_saveGeometry [ArtifactStore σ] [TextStore σ] (s : σ) (a : Artifact)
    (mode : SelectionMode) (nodes : List Position) :
    SameBut (some a.id) s (ArtifactStore.saveGeometry s a mode nodes).2 :=
  fun _ hp => textAt_write_of_ne (hp a.id rfl) _

/-! ### Regions -/

namespace RegionIndex

variable {index : RegionIndex}

theorem get?_replaceShape_of_get? {d : RegionDefinition} {r : Region}
    (h : index.get? d.id = some r) (shape : Shape) (id : RegionId) :
    (index.replaceShape d shape).get? id =
      if id = d.id then some (r.withShape shape) else index.get? id := by
  rw [replaceShape, h, SortedMap.get?_insert]

theorem get?_replaceShape_of_get?_eq_none {d : RegionDefinition}
    (h : index.get? d.id = none) (shape : Shape) (id : RegionId) :
    (index.replaceShape d shape).get? id =
      if id = d.id then some (.ofDefinition d shape) else index.get? id := by
  rw [replaceShape_of_get?_eq_none h, SortedMap.get?_insert]

theorem get?_replaceShape_of_ne {d : RegionDefinition} {id : RegionId} (h : id ≠ d.id)
    (shape : Shape) : (index.replaceShape d shape).get? id = index.get? id :=
  SortedMap.get?_insert_of_ne _ _ h

theorem mem_usersOf_iff {artifact : ArtifactId} {id : RegionId} :
    id ∈ index.usersOf artifact ↔ ∃ r, index.get? id = some r ∧ r.usesArtifact artifact = true := by
  simp only [usersOf, List.mem_map, List.mem_filter, Prod.exists]
  constructor
  · rintro ⟨_, r, ⟨hentry, huses⟩, rfl⟩
    exact ⟨r, SortedMap.mem_entries_iff.mp hentry, huses⟩
  · rintro ⟨r, hr, huses⟩
    exact ⟨id, r, ⟨SortedMap.mem_entries_iff.mpr hr, huses⟩, rfl⟩

theorem length_usersOf (index : RegionIndex) (artifact : ArtifactId) :
    (index.usersOf artifact).length =
      (index.values.filter fun r => r.usesArtifact artifact).length := by
  rw [usersOf, List.length_map, SortedMap.values, List.filter_map, List.length_map]
  rfl

/-- A commit for an artifact leaves alone the regions that do not use it. -/
theorem get?_replaceShapes_of_notMem {artifact : ArtifactId} {id : RegionId}
    (h : id ∉ index.usersOf artifact) (shape : Shape) :
    (index.replaceShapes artifact shape).get? id = index.get? id := by
  rw [replaceShapes, SortedMap.get?_mapValues]
  cases hr : index.get? id with
  | none => rfl
  | some r =>
    have hplain : ¬ r.usesArtifact artifact = true :=
      fun huses => h (mem_usersOf_iff.mpr ⟨r, hr, huses⟩)
    rw [Option.map_some, if_neg hplain]

theorem mem_descendants_self (index : RegionIndex) (id : RegionId) : id ∈ index.descendants id :=
  mem_descendants_iff.mpr .refl

end RegionIndex

namespace Engine

variable {e e' : Engine δ σ}

/-! ### The feed of changes -/

section Listening

variable [ArtifactStore σ] [DefinitionSource δ]

/-- No operation ends the feed of changes, or starts it. -/
theorem listening_perform (e : Engine δ σ) (op : Operation δ σ) :
    (e.perform op).2.changes.listening = e.changes.listening := by
  have hglances : ∀ {e' : Engine δ σ}, Glances e e' →
      e'.changes.listening = e.changes.listening := by
    rintro _ ⟨cache, decisions, rfl⟩
    rfl
  cases op with
  | setSource | setStore | setRegistry | forget | drainFeeds => rfl
  | invalidate target => exact Feed.listening_publishAll ..
  | invalidateAll => exact Feed.listening_publish ..
  | reload =>
    rw [perform, reload]
    cases DefinitionSource.load e.source with
    | error failure => rfl
    | ok definitions => exact Feed.listening_publish ..
  | commitRegion definition shape nodes mode =>
    obtain ⟨store, ⟨failure, hfailed⟩ | hdone⟩ := e.commitRegion_cases definition shape nodes mode
    · rw [perform, hfailed]
      rfl
    · rw [perform, hdone]
      exact Feed.listening_publishAll ..
  | commitArtifact a shape nodes mode =>
    obtain ⟨store, ⟨failure, hfailed⟩ | hdone⟩ := e.commitArtifact_cases a shape nodes mode
    · rw [perform, hfailed]
      rfl
    · rw [perform, hdone]
      refine (congrArg Feed.listening (changes_foldl_invalidate _ _)).trans ?_
      exact Feed.listening_publishAll ..
  | evaluate target c key =>
    exact hglances (glances_ask fun r => e.glances_evaluate (c.forRegion r) key)
  | effective target key => exact hglances (glances_ask fun r => e.glances_bindingsFor r)
  | inspect target => exact hglances (glances_ask fun r => e.glances_bindingsFor r)
  | transition request =>
    obtain ⟨cache, presence, decisions, hmoved⟩ := e.transition_snd request
    exact congrArg (fun e' => e'.changes.listening) hmoved

/-- **A run never ends the feed of changes.** -/
theorem listening_after (e : Engine δ σ) (ops : List (Operation δ σ)) :
    (e.after ops).changes.listening = e.changes.listening := by
  induction ops generalizing e with
  | nil => rfl
  | cons op rest ih => exact (ih (e.perform op).2).trans (e.listening_perform op)

end Listening

/-! ### What a commit may change -/

section Confined

variable [ArtifactStore σ] [TextStore σ]

/-- What a commit may change: regions, the text of one artifact, what is kept, and the feed of
changes. -/
structure Confined (e e' : Engine δ σ) (artifact : Option ArtifactId) : Prop where
  /-- Nothing else changes. -/
  frame : { e' with
    store := e.store, index := e.index, cache := e.cache, changes := e.changes } = e
  /-- No text changes but that of the artifact. -/
  texts : TextStore.SameBut artifact e.store e'.store
  /-- Nothing is kept that was not kept before. -/
  cache : ∀ id, e'.cache.get? id = none ∨ e'.cache.get? id = e.cache.get? id
  /-- Something is added to the feed. It names every region that is no longer what it was, and for
  those nothing is kept. -/
  announced : ∃ news, e'.changes = { e.changes with sent := e.changes.sent ++ news } ∧
    ∀ id, e'.index.get? id ≠ e.index.get? id → .region id ∈ news ∧ e'.cache.get? id = none

/-- **A change of regions that are forgotten is confined.** -/
theorem confined_foldl_invalidate (hlistening : e.changes.listening = true) {store : σ}
    {index : RegionIndex} {ids : List RegionId} {artifact : Option ArtifactId}
    (htexts : TextStore.SameBut artifact e.store store)
    (hindex : ∀ id ∉ ids, index.get? id = e.index.get? id) :
    Confined e (ids.foldl invalidate { e with store, index }) artifact := by
  obtain ⟨cache, changes, hframe⟩ := foldl_invalidate_eq { e with store, index } ids
  refine ⟨by rw [hframe], by rwa [hframe], fun id => ?_,
    (ids.flatMap index.descendants).map .region, ?_, fun id hid => ?_⟩
  · rw [get?_cache_foldl_invalidate]
    split
    · exact .inl rfl
    · exact .inr rfl
  · rw [changes_foldl_invalidate]
    exact if_pos hlistening
  · rw [index_foldl_invalidate] at hid
    have hmem : id ∈ ids := by_contra fun hnot => hid (hindex id hnot)
    have hself := RegionIndex.mem_descendants_self index id
    refine ⟨List.mem_map_of_mem (List.mem_flatMap.mpr ⟨id, hmem, hself⟩), ?_⟩
    rw [get?_cache_foldl_invalidate, if_pos ⟨id, hmem, hself⟩]

/-- What a commit for a region leaves behind, where it succeeds. -/
theorem commitRegion_snd {definition : RegionDefinition} {shape : Shape} {nodes : List Position}
    {mode : Option SelectionMode}
    (h : (e.commitRegion definition shape nodes mode).1 = .ok ()) :
    ∃ store, TextStore.SameBut (definition.artifact.map Artifact.id) e.store store ∧
      (e.commitRegion definition shape nodes mode).2 =
        [definition.id].foldl invalidate
          { e with store, index := e.index.replaceShape definition shape } := by
  rw [commitRegion] at h ⊢
  cases hartifact : definition.artifact with
  | none => exact ⟨e.store, fun _ _ => rfl, rfl⟩
  | some a =>
    have htexts := TextStore.sameBut_saveGeometry e.store a (mode.getD (.ofShape shape))
      (nodesFor nodes shape)
    rcases hsaved : ArtifactStore.saveGeometry e.store a (mode.getD (.ofShape shape))
      (nodesFor nodes shape) with ⟨failure | ⟨⟩, store⟩
    · simp [hartifact, hsaved] at h
    · rw [hsaved] at htexts
      refine ⟨store, htexts, ?_⟩
      simp only [hsaved]
      rfl

/-- What a commit for an artifact leaves behind, where it succeeds. -/
theorem commitArtifact_snd {a : Artifact} {shape : Shape} {nodes : List Position}
    {mode : Option SelectionMode} {n : Nat}
    (h : (e.commitArtifact a shape nodes mode).1 = .ok n) :
    n = (e.index.usersOf a.id).length ∧
      ∃ store, TextStore.SameBut (some a.id) e.store store ∧
        (e.commitArtifact a shape nodes mode).2 =
          (e.index.usersOf a.id).foldl invalidate
            { e with store, index := e.index.replaceShapes a.id shape } := by
  have htexts := fun mode => TextStore.sameBut_saveGeometry e.store a mode (nodesFor nodes shape)
  rw [commitArtifact] at h ⊢
  dsimp only at h ⊢
  generalize mode.getD _ = mode at h ⊢
  rcases hsaved : ArtifactStore.saveGeometry e.store a mode (nodesFor nodes shape) with
    ⟨failure | ⟨⟩, store⟩
  · simp [hsaved] at h
  · have htexts := htexts mode
    rw [hsaved] at h htexts
    exact ⟨(Except.ok.inj h).symm, store, htexts, rfl⟩

/-! ### Commits in a run -/

variable {shape : Shape} {nodes : List Position} {mode : Option SelectionMode}

theorem confined_commitRegion (hlistening : e.changes.listening = true)
    {definition : RegionDefinition}
    (h : (e.commitRegion definition shape nodes mode).1 = .ok ()) :
    Confined e (e.commitRegion definition shape nodes mode).2
        (definition.artifact.map Artifact.id) ∧
      (e.commitRegion definition shape nodes mode).2.index =
        e.index.replaceShape definition shape := by
  obtain ⟨store, htexts, hleft⟩ := commitRegion_snd h
  rw [hleft]
  refine ⟨confined_foldl_invalidate hlistening htexts fun id hid => ?_, index_foldl_invalidate ..⟩
  exact RegionIndex.get?_replaceShape_of_ne (List.mem_singleton.not.mp hid) shape

theorem confined_commitArtifact (hlistening : e.changes.listening = true) {a : Artifact} {n : Nat}
    (h : (e.commitArtifact a shape nodes mode).1 = .ok n) :
    Confined e (e.commitArtifact a shape nodes mode).2 (some a.id) ∧
      (e.commitArtifact a shape nodes mode).2.index =
        e.index.reshape (fun r => r.usesArtifact a.id) shape := by
  obtain ⟨-, store, htexts, hleft⟩ := commitArtifact_snd h
  rw [hleft]
  refine ⟨confined_foldl_invalidate hlistening htexts fun id hid => ?_, index_foldl_invalidate ..⟩
  exact RegionIndex.get?_replaceShapes_of_notMem hid shape

/-- Where a confined change gives new shapes, it changes nothing that bears on a region. -/
theorem Confined.bearing_of_reshape {artifact : Option ArtifactId} (h : Confined e e' artifact)
    (hkeyed : e.index.Keyed Region.id) {picked : Region → Bool}
    (hindex : e'.index = e.index.reshape picked shape) (id : RegionId) :
    e'.bearing id = e.bearing id :=
  (steady_of_index_eq_reshape hkeyed hindex h.cache).bearing id

variable [DefinitionSource δ]

/-- **What every commit that succeeds does,** in every state that an engine can reach. A commit for
a region gives that region a new shape, if it is in force, and brings it into force if it is not;
one for an artifact gives a new shape to the regions that use it, and tells how many these are.
What bears on regions in force is not touched by new shapes. Nothing else changes but the text of
the artifact; and every region that is no longer what it was is named in the feed of changes, with
nothing left that is kept for it. -/
theorem commits_confined (source : δ) (store : σ) (registry : Registry) (buffer : Nat)
    (listening : Bool) (ops : List (Operation δ σ)) :
    let e := (start source store registry buffer listening).after ops
    (∀ definition shape nodes mode, (e.commitRegion definition shape nodes mode).1 = .ok () →
      let e' := (e.commitRegion definition shape nodes mode).2
      Confined e e' (definition.artifact.map Artifact.id) ∧
        (∀ r, e.index.get? definition.id = some r →
          (∀ id, e'.index.get? id =
              if id = definition.id then some (r.withShape shape) else e.index.get? id) ∧
            ∀ id, e'.bearing id = e.bearing id) ∧
        (e.index.get? definition.id = none → ∀ id, e'.index.get? id =
          if id = definition.id then some (.ofDefinition definition shape)
          else e.index.get? id)) ∧
    ∀ a shape nodes mode n, (e.commitArtifact a shape nodes mode).1 = .ok n →
      let e' := (e.commitArtifact a shape nodes mode).2
      Confined e e' (some a.id) ∧
        n = (e.index.values.filter fun r => r.usesArtifact a.id).length ∧
        (∀ id, e'.index.get? id =
          (e.index.get? id).map fun r => if r.usesArtifact a.id then r.withShape shape else r) ∧
        ∀ id, e'.bearing id = e.bearing id := by
  intro e
  have hlistening : e.changes.listening = true := listening_after _ ops
  have hkeyed : e.index.Keyed Region.id :=
    ((tidy_start source store registry buffer listening).after ops).keyed
  constructor
  · intro definition shape nodes mode h e'
    obtain ⟨hconfined, hindex⟩ := confined_commitRegion hlistening h
    refine ⟨hconfined, fun r hr => ⟨fun id => ?_, ?_⟩, fun hnew id => ?_⟩
    · rw [hindex, RegionIndex.get?_replaceShape_of_get? hr]
    · exact hconfined.bearing_of_reshape hkeyed
        (hindex.trans (RegionIndex.replaceShape_of_get? hkeyed hr shape))
    · rw [hindex, RegionIndex.get?_replaceShape_of_get?_eq_none hnew]
  · intro a shape nodes mode n h e'
    obtain ⟨hconfined, hindex⟩ := confined_commitArtifact hlistening h
    obtain ⟨hn, -⟩ := commitArtifact_snd h
    refine ⟨hconfined, ?_, fun id => ?_, hconfined.bearing_of_reshape hkeyed hindex⟩
    · rw [hn, RegionIndex.length_usersOf]
    · rw [hindex, RegionIndex.get?_reshape]

end Confined

/-! ### A meadow, its paddock and a copse -/

section Paddock

/-- A paddock that lies where the meadow does. -/
def paddock : RegionDefinition := { id := ⟨"paddock"⟩, artifact := some meadowArtifact }

/-- A copse whose geometry is not stored. -/
def copse : RegionDefinition := { id := ⟨"copse"⟩ }

/-- An engine into which meadow and paddock were brought one after the other. -/
def fenced : Engine MemorySource MemoryStore :=
  (start {} {} .standard 64 true).after
    [.commitRegion meadow .empty [] none, .commitRegion paddock .empty [] none]

/-- All the land of one world. -/
def everywhere : Shape := .world ⟨["world"], WorldShape.defaultMinY, WorldShape.defaultMaxY⟩

/-- The paddock may grow alone, and then the meadow stays what it is; or both grow together. A copse
that was not there comes into force. -/
theorem commits_confined_fenced :
    ((fenced.commitRegion paddock everywhere [] none).1 = .ok () ∧
      (fenced.commitRegion paddock everywhere [] none).2.index.get? meadow.id =
        fenced.index.get? meadow.id) ∧
    ((fenced.commitRegion copse everywhere [] none).1 = .ok () ∧
      (fenced.commitRegion copse everywhere [] none).2.index.get? copse.id =
        some (.ofDefinition copse everywhere)) ∧
    (fenced.commitArtifact meadowArtifact everywhere [] none).1 = .ok 2 ∧
      Confined fenced (fenced.commitArtifact meadowArtifact everywhere [] none).2
        (some meadowArtifact.id) := by
  obtain ⟨hregions, hartifacts⟩ := commits_confined (δ := MemorySource) (σ := MemoryStore) {} {}
    .standard 64 true
    [.commitRegion meadow .empty [] none, .commitRegion paddock .empty [] none]
  have hone : (fenced.commitRegion paddock everywhere [] none).1 = .ok () := rfl
  have hnew : (fenced.commitRegion copse everywhere [] none).1 = .ok () := rfl
  have hboth : (fenced.commitArtifact meadowArtifact everywhere [] none).1 = .ok 2 := rfl
  refine ⟨⟨hone, ?_⟩, ⟨hnew, ?_⟩, hboth, (hartifacts meadowArtifact everywhere [] none 2 hboth).1⟩
  · obtain ⟨-, hreshaped, -⟩ := hregions paddock everywhere [] none hone
    exact ((hreshaped (.ofDefinition paddock .empty) rfl).1 meadow.id).trans (if_neg (by decide))
  · obtain ⟨-, -, harrived⟩ := hregions copse everywhere [] none hnew
    exact (harrived rfl copse.id).trans (if_pos rfl)

end Paddock

end Engine

end RegionPolicy
