import RegionPolicy.Engine.Commit
import RegionPolicy.Proofs.Lineage

/-!
# Committing shapes

A commit that succeeds exchanges shapes and forgets bindings; one that fails touches nothing but
the store. Only in one case is there more to it: a commit for a region that is not in force brings
it into force.

## Main definitions

* `RegionIndex.reshape` — an index with a new shape for some of its regions.

## Main results

* `RegionIndex.replaceShape_of_get?` — a commit for a region in force exchanges its shape.
* `RegionIndex.bindings_reshape` — new shapes change no bindings.
* `Engine.get?_cache_foldl_invalidate`, `Engine.changes_foldl_invalidate` — what is forgotten, and
  what is made known of it.
* `Engine.commitRegion_cases`, `Engine.commitArtifact_cases` — what a commit does.
-/

namespace RegionPolicy

namespace RegionIndex

variable {index : RegionIndex}

/-! ### New shapes for regions in force -/

/-- The index with a new shape for the regions that are picked out. -/
def reshape (index : RegionIndex) (picked : Region → Bool) (shape : Shape) : RegionIndex :=
  index.mapValues fun _ r => if picked r then r.withShape shape else r

theorem get?_reshape (index : RegionIndex) (picked : Region → Bool) (shape : Shape)
    (id : RegionId) :
    (index.reshape picked shape).get? id =
      (index.get? id).map fun r => if picked r then r.withShape shape else r :=
  SortedMap.get?_mapValues ..

/-- A commit for a region in force exchanges its shape. -/
theorem replaceShape_of_get? (hindex : index.Keyed Region.id) {definition : RegionDefinition}
    {r : Region} (h : index.get? definition.id = some r) (shape : Shape) :
    index.replaceShape definition shape =
      index.reshape (fun s => s.id = definition.id) shape := by
  refine SortedMap.ext_get? fun id => ?_
  rw [replaceShape, h, get?_reshape]
  show SortedMap.get? (index.insert definition.id (r.withShape shape)) id = _
  rw [SortedMap.get?_insert]
  split
  · rename_i hid
    have hr : r.id = definition.id := hindex _ r h
    simp [hid, h, hr]
  · rename_i hid
    cases hs : index.get? id with
    | none => rfl
    | some s =>
      have hsid : s.id ≠ definition.id := hindex id s hs ▸ hid
      simp [hsid]

theorem keyed_reshape (hindex : index.Keyed Region.id) (picked : Region → Bool) (shape : Shape) :
    (index.reshape picked shape).Keyed Region.id :=
  hindex.mapValues fun _ r => by split <;> rfl

/-- **New shapes change no bindings.** -/
theorem bindings_reshape (hindex : index.Keyed Region.id) (picked : Region → Bool) (shape : Shape)
    (id : RegionId) :
    ((index.reshape picked shape).get? id).map (index.reshape picked shape).bindings =
      (index.get? id).map index.bindings := by
  rw [get?_reshape]
  cases hr : index.get? id with
  | none => rfl
  | some r =>
    have hid : r.id = id := hindex id r hr
    simp only [Option.map_some, Option.some.injEq]
    exact bindings_mapValues hindex (f := fun _ r => if picked r then r.withShape shape else r)
      (fun _ r => by split <;> rfl) (fun _ r => by split <;> rfl) (fun _ r => by split <;> rfl)
      (hid ▸ hr)

/-! ### A region that comes into force -/

/-- A commit for a region that is not in force brings it into force. -/
theorem replaceShape_of_get?_eq_none {definition : RegionDefinition}
    (h : index.get? definition.id = none) (shape : Shape) :
    index.replaceShape definition shape =
      index.insert definition.id (.ofDefinition definition shape) := by
  rw [replaceShape, h]

/-- Nothing lies below a region that has just come into force. -/
theorem descendants_insert (index : RegionIndex) (definition : RegionDefinition) (shape : Shape) :
    descendants (index.insert definition.id (.ofDefinition definition shape)) definition.id =
      [definition.id] :=
  SortedMap.explore_of_no_links (SortedMap.get?_insert_self ..) rfl

end RegionIndex

/-! ### Feeds -/

namespace Feed

variable {α : Type} (f : Feed α)

theorem publishAll_nil : f.publishAll [] = f := by
  rw [publishAll, List.append_nil]
  exact ite_self f

theorem publishAll_publishAll (as bs : List α) :
    (f.publishAll as).publishAll bs = f.publishAll (as ++ bs) := by
  cases hlistening : f.listening <;> simp [publishAll, hlistening]

/-- To write to a feed neither ends nor starts it. -/
theorem listening_publish (a : α) : (f.publish a).listening = f.listening := by
  rw [publish]
  split <;> rfl

theorem listening_publishAll (as : List α) : (f.publishAll as).listening = f.listening := by
  rw [publishAll]
  split <;> rfl

end Feed

namespace Engine

variable {δ σ : Type} (e : Engine δ σ)

/-! ### Forgetting -/

theorem get?_cache_invalidate (id target : RegionId) :
    (e.invalidate id).cache.get? target =
      if target ∈ e.index.descendants id then none else e.cache.get? target :=
  SortedMap.get?_foldl_erase ..

/-- Forgetting touches nothing but what is known and the feed of changes. -/
theorem foldl_invalidate_eq (ids : List RegionId) :
    ∃ cache changes, ids.foldl invalidate e = { e with cache, changes } := by
  induction ids generalizing e with
  | nil => exact ⟨e.cache, e.changes, rfl⟩
  | cons id rest ih =>
    obtain ⟨cache, changes, h⟩ := ih (e.invalidate id)
    exact ⟨cache, changes, h⟩

theorem index_foldl_invalidate (ids : List RegionId) :
    (ids.foldl invalidate e).index = e.index := by
  obtain ⟨cache, changes, h⟩ := e.foldl_invalidate_eq ids
  rw [h]

theorem get?_cache_foldl_invalidate (ids : List RegionId) (target : RegionId) :
    (ids.foldl invalidate e).cache.get? target =
      if ∃ id ∈ ids, target ∈ e.index.descendants id then none else e.cache.get? target := by
  induction ids generalizing e with
  | nil => simp
  | cons id rest ih =>
    rw [List.foldl_cons, ih, get?_cache_invalidate]
    simp only [List.exists_mem_cons_iff]
    by_cases hid : target ∈ e.index.descendants id
    · simp [hid]
    · simp only [hid, if_false, false_or]
      rfl

/-- What is forgotten is named in the order in which it is forgotten. -/
theorem changes_foldl_invalidate (ids : List RegionId) :
    (ids.foldl invalidate e).changes =
      e.changes.publishAll ((ids.flatMap e.index.descendants).map .region) := by
  induction ids generalizing e with
  | nil => exact e.changes.publishAll_nil.symm
  | cons id rest ih =>
    rw [List.foldl_cons, ih, List.flatMap_cons, List.map_append, ← Feed.publishAll_publishAll]
    rfl

/-! ### What a commit does -/

variable [ArtifactStore σ]

/-- **What a commit for a region does.** Where it fails, nothing but the store may have changed. -/
theorem commitRegion_cases (definition : RegionDefinition) (shape : Shape)
    (nodes : List Position) (mode : Option SelectionMode) :
    ∃ store,
      (∃ failure, e.commitRegion definition shape nodes mode =
        (.error failure, { e with store })) ∨
      e.commitRegion definition shape nodes mode =
        (.ok (), { e with store, index := e.index.replaceShape definition shape }.invalidate
          definition.id) := by
  simp only [commitRegion]
  split
  · rename_i failure _
    exact ⟨_, .inl ⟨failure, rfl⟩⟩
  · exact ⟨_, .inr rfl⟩

/-- **What a commit for an artifact does.** Where it fails, nothing but the store may have
changed. -/
theorem commitArtifact_cases (a : Artifact) (shape : Shape) (nodes : List Position)
    (mode : Option SelectionMode) :
    ∃ store,
      (∃ failure, e.commitArtifact a shape nodes mode = (.error failure, { e with store })) ∨
      e.commitArtifact a shape nodes mode =
        (.ok (e.index.usersOf a.id).length,
          (e.index.usersOf a.id).foldl invalidate
            { e with store, index := e.index.replaceShapes a.id shape }) := by
  simp only [commitArtifact]
  split
  · rename_i failure _
    exact ⟨_, .inl ⟨failure, rfl⟩⟩
  · exact ⟨_, .inr rfl⟩

end Engine

end RegionPolicy
