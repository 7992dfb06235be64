import RegionPolicy.Engine.Feed
import RegionPolicy.Movement.Presence
import RegionPolicy.Policy.Evaluation
import RegionPolicy.Policy.Inspection
import RegionPolicy.Store.Basic

/-!
# The engine

The engine holds the regions in force, and what was found out about their flags: the bindings
that bear on a region are kept from one look to the next, until something changes that they
depend on. Changes and decisions are made known in feeds.

An operation that can fail gives back its result together with the engine that it leaves behind.

## Main definitions

* `Engine`, `CacheChange`, `Engine.start`, `Engine.drainFeeds`.
* `Engine.bindingsFor`, `Engine.evaluate`, `Engine.effective`, `Engine.inspect`.
* `Engine.invalidate`, `Engine.invalidateAll`.
-/

namespace RegionPolicy

/-- What is no longer known. -/
inductive CacheChange where
  /-- The bindings of a region. -/
  | region (id : RegionId)
  /-- The bindings of all regions. -/
  | all
deriving DecidableEq

/-- The regions in force with all that goes with them. -/
structure Engine (δ σ : Type) where
  /-- Where definitions come from. -/
  source : δ
  /-- Where geometry is kept. -/
  store : σ
  /-- The regions in force. -/
  index : RegionIndex
  /-- The bindings known to bear on a region. -/
  cache : SortedMap RegionId BindingGraph
  /-- Which regions actors are in. -/
  presence : Presence
  /-- The handlers. -/
  registry : Registry
  /-- What is no longer known. -/
  changes : Feed CacheChange
  /-- The decisions made. -/
  decisions : Feed Decision

namespace Engine

variable {δ σ : Type}

/-- An engine without regions. `buffer` is the number of items that its feeds keep, at least;
`listening` tells whether anyone looks at the decisions. -/
def start (source : δ) (store : σ) (registry : Registry) (buffer : Nat) (listening : Bool) :
    Engine δ σ where
  source
  store
  index := ∅
  cache := ∅
  presence := ∅
  registry
  changes := .ofBuffer buffer true
  decisions := .ofBuffer buffer listening

/-- The engine once someone has looked into its feeds. -/
def drainFeeds (e : Engine δ σ) : Engine δ σ :=
  { e with changes := e.changes.drain, decisions := e.decisions.drain }

/-! ### Flags -/

/-- The bindings that bear on a region, which are kept from then on. -/
def bindingsFor (e : Engine δ σ) (r : Region) : BindingGraph × Engine δ σ :=
  match e.cache.get? r.id with
  | some graph => (graph, e)
  | none =>
    let graph := e.index.bindings r
    (graph, { e with cache := e.cache.insert r.id graph })

/-- Puts a decision on record, if there is one. -/
def record (e : Engine δ σ) : Option Decision → Engine δ σ
  | some decision => { e with decisions := e.decisions.publish decision }
  | none => e

/-- Looks at a flag. A flag without a handler passes. -/
def evaluate (e : Engine δ σ) (c : Context) (key : FlagKey) :
    Except HandlerError Verdict × Engine δ σ :=
  match e.registry key with
  | none => (.ok .pass, e)
  | some entry =>
    let (graph, e) := e.bindingsFor c.region
    match graph.evaluate entry c key with
    | .error failure => (.error failure, e)
    | .ok ruling => (.ok ruling.verdict, e.record ruling.decision)

/-- The binding of a flag that counts for a region. -/
def effective (e : Engine δ σ) (r : Region) (key : FlagKey) :
    Option ResolvedBinding × Engine δ σ :=
  let (graph, e) := e.bindingsFor r
  (graph.effective key r.id, e)

/-- How the flags of a region come about. -/
def inspect (e : Engine δ σ) (r : Region) : List FlagResolution × Engine δ σ :=
  let (graph, e) := e.bindingsFor r
  (graph.resolutions r.id, e)

/-! ### Forgetting -/

/-- Forgets the bindings of a region and of all regions below it, as far as they are known, and
makes it known. -/
def invalidate (e : Engine δ σ) (id : RegionId) : Engine δ σ :=
  let ids := e.index.descendants id
  { e with
    cache := ids.foldl SortedMap.erase e.cache
    changes := e.changes.publishAll (ids.map .region) }

/-- Forgets all bindings, and makes it known. -/
def invalidateAll (e : Engine δ σ) : Engine δ σ :=
  { e with cache := ∅, changes := e.changes.publish .all }

end Engine

end RegionPolicy
