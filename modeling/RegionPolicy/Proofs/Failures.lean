import RegionPolicy.Proofs.Commits
import RegionPolicy.Proofs.Runs
import RegionPolicy.Proofs.Texts

/-!
# Operations that fail

Only loads and commits can fail: a load if the definitions cannot be read, a commit if a text cannot
be written. Both find out before they change anything else, so whatever failed has left the regions,
what is known of them, the presence of actors and the feeds as they were. What becomes of the store
depends on the store: a write that fails may leave traces, but if it stores nothing then a failed
operation stores nothing either.

So operations that fail can be struck out of a run.

## Main definitions

* `Answer.failure?` — the failure that an answer reports.
* `Engine.struck` — a run without the operations that fail.

## Main results

* `Engine.reload_of_error`, `Engine.commitRegion_of_error`, `Engine.commitArtifact_of_error` — what
  an operation that fails has done.
* `Engine.perform_of_failure` — an operation that fails changes nothing.
* `Engine.after_struck` — a run ends the same without the operations that fail.
-/

namespace RegionPolicy

open ArtifactStore

/-- The failure of the definitions or of the store that an answer reports. -/
def Answer.failure? : Answer → Option StoreError
  | .loaded (.error failure) => some failure
  | .committed (.error failure) => some failure
  | .committedAll (.error failure) => some failure
  | _ => none

/-- A write that fails leaves a store in memory exactly as it was. -/
theorem MemoryStore.eq_of_refused {s s' : MemoryStore} {id : ArtifactId} {data : String}
    {failure : StoreError} (h : write s id data = (.error failure, s')) : s' = s := by
  simp only [write] at h
  split at h
  · exact (Prod.mk.inj h).2.symm
  · cases h

namespace Engine

variable {δ σ : Type} {e : Engine δ σ} {failure : StoreError}

/-! ### What an operation that fails has done -/

theorem reload_of_error [DefinitionSource δ] [ArtifactStore σ] (h : e.reload.1 = .error failure) :
    e.reload = (.error failure, e) := by
  cases hload : DefinitionSource.load e.source with
  | error reason =>
    rw [reload_eq_error hload] at h ⊢
    rw [Except.error.inj h]
  | ok definitions =>
    rw [reload_eq hload] at h
    cases h

section Commits

variable [ArtifactStore σ] {shape : Shape} {nodes : List Position} {mode : Option SelectionMode}

/-- A commit for a region fails just where its geometry cannot be written. -/
theorem commitRegion_of_error {definition : RegionDefinition}
    (h : (e.commitRegion definition shape nodes mode).1 = .error failure) :
    ∃ id data store, write e.store id data = (.error failure, store) ∧
      e.commitRegion definition shape nodes mode = (.error failure, { e with store }) := by
  cases hartifact : definition.artifact with
  | none =>
    simp only [commitRegion, hartifact] at h
    cases h
  | some a =>
    rcases hsaved : saveGeometry e.store a (mode.getD (.ofShape shape)) (nodesFor nodes shape) with
      ⟨reason | ⟨⟩, store⟩
    · simp only [commitRegion, hartifact, hsaved] at h ⊢
      obtain rfl := Except.error.inj h
      exact ⟨_, _, store, hsaved, rfl⟩
    · simp only [commitRegion, hartifact, hsaved] at h
      cases h

/-- So does a commit for an artifact. -/
theorem commitArtifact_of_error {a : Artifact}
    (h : (e.commitArtifact a shape nodes mode).1 = .error failure) :
    ∃ id data store, write e.store id data = (.error failure, store) ∧
      e.commitArtifact a shape nodes mode = (.error failure, { e with store }) := by
  simp only [commitArtifact] at h ⊢
  split at h
  · rename_i reason hsaved
    obtain rfl := Except.error.inj h
    exact ⟨_, _, _, Prod.ext hsaved rfl, rfl⟩
  · cases h

end Commits

/-! ### Nothing changes -/

variable [DefinitionSource δ] [ArtifactStore σ]

/-- **What an operation that fails has done:** nothing, or a write that failed. -/
theorem perform_of_error {op : Operation δ σ} (h : (e.perform op).1.failure? = some failure) :
    ∃ store, (store = e.store ∨ ∃ id data, write e.store id data = (.error failure, store)) ∧
      (e.perform op).2 = { e with store } := by
  cases op with
  | reload =>
    have hfailed : e.reload.1 = .error failure := by
      cases hresult : e.reload.1 <;> simp_all [perform, Answer.failure?]
    exact ⟨e.store, .inl rfl, congrArg Prod.snd (reload_of_error hfailed)⟩
  | commitRegion definition shape nodes mode =>
    have hfailed : (e.commitRegion definition shape nodes mode).1 = .error failure := by
      cases hresult : (e.commitRegion definition shape nodes mode).1 <;>
        simp_all [perform, Answer.failure?]
    obtain ⟨id, data, store, hwrite, heq⟩ := commitRegion_of_error hfailed
    exact ⟨store, .inr ⟨id, data, hwrite⟩, congrArg Prod.snd heq⟩
  | commitArtifact a shape nodes mode =>
    have hfailed : (e.commitArtifact a shape nodes mode).1 = .error failure := by
      cases hresult : (e.commitArtifact a shape nodes mode).1 <;>
        simp_all [perform, Answer.failure?]
    obtain ⟨id, data, store, hwrite, heq⟩ := commitArtifact_of_error hfailed
    exact ⟨store, .inr ⟨id, data, hwrite⟩, congrArg Prod.snd heq⟩
  | evaluate target | effective target | inspect target =>
    simp only [perform, ask] at h
    split at h <;> cases h
  | _ => cases h

/-- **An operation that fails changes nothing.** `view` is what is seen of a store: if no write that
fails can be seen, no operation that fails can be. -/
theorem perform_of_failure {τ : Type} (view : σ → τ)
    (hview : ∀ (s s' : σ) id data failure, write s id data = (.error failure, s') →
      view s' = view s) :
    (∀ (e : Engine δ σ) (op : Operation δ σ) failure, (e.perform op).1.failure? = some failure →
      ∃ store, view store = view e.store ∧ (e.perform op).2 = { e with store }) ∧
    ∀ (s : σ) (a : Artifact) (mode : SelectionMode) (nodes : List Position) failure,
      (saveGeometry s a mode nodes).1 = .error failure →
        view (saveGeometry s a mode nodes).2 = view s := by
  refine ⟨fun e op failure h => ?_, fun s a mode nodes failure h => ?_⟩
  · obtain ⟨store, hstore, heq⟩ := perform_of_error h
    refine ⟨store, ?_, heq⟩
    rcases hstore with rfl | ⟨id, data, hwrite⟩
    · rfl
    · exact hview _ _ _ _ _ hwrite
  · exact hview _ _ _ _ _ (Prod.ext h rfl)

/-- A meadow whose text cannot be written. -/
def lockedStore : MemoryStore := { meadowStore with unwritable := .ofList [meadowArtifact.id] }

/-- The engine with the meadow. -/
def lockedEngine : Engine MemorySource MemoryStore := (meadowEngine lockedStore).reload.2

/-- The meadow is to give up its box. -/
def clearing : Operation MemorySource MemoryStore :=
  .commitArtifact meadowArtifact .empty [] none

theorem perform_of_failure_locked :
    (lockedEngine.perform clearing).1.failure? = some (.storage .writeArtifact "disk full") ∧
      (lockedEngine.perform clearing).2 = lockedEngine := by
  have hfailed : (lockedEngine.perform clearing).1.failure? =
      some (.storage .writeArtifact "disk full") := by
    decide +kernel
  have hall := perform_of_failure (δ := MemorySource) (fun s : MemoryStore => s)
    fun _ _ _ _ _ hwrite => MemoryStore.eq_of_refused hwrite
  obtain ⟨store, hstore, heq⟩ := hall.1 lockedEngine clearing _ hfailed
  have hsame : store = lockedEngine.store := hstore
  exact ⟨hfailed, by rw [heq, hsame]⟩

/-! ### Runs -/

/-- A run without the operations that fail. -/
def struck (e : Engine δ σ) : List (Operation δ σ) → List (Operation δ σ)
  | [] => []
  | op :: rest =>
    match (e.perform op).1.failure? with
    | some _ => (e.perform op).2.struck rest
    | none => op :: (e.perform op).2.struck rest

/-- **A run ends the same without the operations that fail,** as long as a write that fails leaves
the store as it was. -/
theorem after_struck (hwrite : ∀ (s s' : σ) id data failure,
    write s id data = (.error failure, s') → s' = s) (e : Engine δ σ) (ops : List (Operation δ σ)) :
    e.after (e.struck ops) = e.after ops := by
  induction ops generalizing e with
  | nil => rfl
  | cons op rest ih =>
    rw [struck]
    split
    · rename_i failure hfailed
      obtain ⟨store, hstore, heq⟩ := perform_of_error hfailed
      have hsame : store = e.store := by
        rcases hstore with h | ⟨id, data, h⟩
        · exact h
        · exact hwrite _ _ _ _ _ h
      have hnothing : (e.perform op).2 = e := by rw [heq, hsame]
      have hrest : e.after (op :: rest) = (e.perform op).2.after rest := rfl
      rw [hrest, hnothing, ih]
    · exact ih _

end Engine

end RegionPolicy
