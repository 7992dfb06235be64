import RegionPolicy.Engine.Commit
import RegionPolicy.Engine.Movement

/-!
# Runs

An engine is used by one operation after the other. Regions are named by their ids, and looked up
among the regions in force when an operation comes to them; so is the region of a context.

## Main definitions

* `Operation`, `Answer` — what can be asked of an engine, and what it says.
* `Engine.perform` — one operation.
* `Engine.after` — an engine after a run of operations.
* `Engine.transcript` — the operations of a run with their answers.
-/

namespace RegionPolicy

/-- What can be asked of an engine, or done to what it works with. -/
inductive Operation (δ σ : Type) where
  /-- Other definitions to load from. -/
  | setSource (source : δ)
  /-- Another store, or another content of it. -/
  | setStore (store : σ)
  /-- Other handlers. -/
  | setRegistry (registry : Registry)
  | reload
  | commitRegion (definition : RegionDefinition) (shape : Shape) (nodes : List Position)
      (mode : Option SelectionMode)
  | commitArtifact (a : Artifact) (shape : Shape) (nodes : List Position)
      (mode : Option SelectionMode)
  /-- To look at a flag of a region. The context is taken for that region. -/
  | evaluate (id : RegionId) (c : Context) (key : FlagKey)
  | effective (id : RegionId) (key : FlagKey)
  | inspect (id : RegionId)
  | transition (request : TransitionRequest)
  | invalidate (id : RegionId)
  | invalidateAll
  /-- To forget where an actor is. -/
  | forget (actor : ActorId)
  /-- To look into the feeds. -/
  | drainFeeds

/-- What an engine says to an operation. -/
inductive Answer where
  /-- There is nothing to say. -/
  | done
  /-- The region is not in force. -/
  | missing
  | loaded (result : Except StoreError Nat)
  | committed (result : Except StoreError Unit)
  | committedAll (result : Except StoreError Nat)
  | verdict (result : Except HandlerError Verdict)
  | effective (result : Option ResolvedBinding)
  | resolutions (result : List FlagResolution)
  | decision (result : Except HandlerError TransitionDecision)
  | left (regions : Option (SortedSet RegionId))

namespace Engine

variable {δ σ : Type}

/-- Asks something about the region with an id, if it is in force. -/
def ask (e : Engine δ σ) (id : RegionId) (question : Region → Answer × Engine δ σ) :
    Answer × Engine δ σ :=
  match e.index.get? id with
  | none => (.missing, e)
  | some r => question r

variable [DefinitionSource δ] [ArtifactStore σ]

/-- One operation: the answer, and the engine that it leaves behind. -/
def perform (e : Engine δ σ) : Operation δ σ → Answer × Engine δ σ
  | .setSource source => (.done, { e with source })
  | .setStore store => (.done, { e with store })
  | .setRegistry registry => (.done, { e with registry })
  | .reload => e.reload.map .loaded id
  | .commitRegion definition shape nodes mode =>
    (e.commitRegion definition shape nodes mode).map .committed id
  | .commitArtifact a shape nodes mode =>
    (e.commitArtifact a shape nodes mode).map .committedAll id
  | .evaluate target c key =>
    e.ask target fun r => (e.evaluate (c.forRegion r) key).map .verdict id
  | .effective target key => e.ask target fun r => (e.effective r key).map .effective id
  | .inspect target => e.ask target fun r => (e.inspect r).map .resolutions id
  | .transition request => (e.transition request).map .decision id
  | .invalidate target => (.done, e.invalidate target)
  | .invalidateAll => (.done, e.invalidateAll)
  | .forget actor =>
    let (regions, presence) := e.presence.forget actor
    (.left regions, { e with presence })
  | .drainFeeds => (.done, e.drainFeeds)

/-- An engine after a run of operations. -/
def after (e : Engine δ σ) (ops : List (Operation δ σ)) : Engine δ σ :=
  ops.foldl (fun e op => (e.perform op).2) e

@[simp] theorem after_append (e : Engine δ σ) (ops more : List (Operation δ σ)) :
    e.after (ops ++ more) = (e.after ops).after more :=
  List.foldl_append

theorem after_singleton (e : Engine δ σ) (op : Operation δ σ) :
    e.after [op] = (e.perform op).2 := rfl

/-- The operations of a run, each with its answer. -/
def transcript (e : Engine δ σ) : List (Operation δ σ) → List (Operation δ σ × Answer)
  | [] => []
  | op :: rest => (op, (e.perform op).1) :: (e.perform op).2.transcript rest

theorem transcript_concat (e : Engine δ σ) (ops : List (Operation δ σ)) (op : Operation δ σ) :
    e.transcript (ops ++ [op]) = e.transcript ops ++ [(op, ((e.after ops).perform op).1)] := by
  induction ops generalizing e with
  | nil => rfl
  | cons first rest ih =>
    rw [List.cons_append, transcript, transcript, ih]
    rfl

end Engine

end RegionPolicy
