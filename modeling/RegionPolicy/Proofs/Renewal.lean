import RegionPolicy.Proofs.Presence
import RegionPolicy.Proofs.Reshaping
import RegionPolicy.Proofs.Standing

/-!
# A load forgets the past

Two engines can have come to where they are in quite different ways: with other regions, with
bindings that are out of date, with regions that only a commit brought into force. Once both load
the same definitions over stores that are alike, none of that shows any more. They have the same
regions, keep nothing, and whatever is asked of them from then on, both say and do the same.

Two things a load leaves alone. Actors stay where they are, so what a move reports as entered and
left can differ, and what is told of an actor when it is forgotten; but not any longer once the
actor was moved or forgotten in both. And what nobody has read yet stays in the feeds, so only the
news since the load are the same. How much the feeds hold and whether anyone reads them is left
open.

Stores are alike if no sequence of calls tells them apart and they hold the same texts, those
included that cannot be read. For stores in memory this is to hold the same texts and to fail at the
same artifacts.

## Main definitions

* `ArtifactStore.Alike` — stores that no call tells apart.
* `Presence.Converges`, `Feed.Abreast` — actors and feeds since two engines began to do the same.
* `Answer.withoutPresence` — an answer but for what it says of presence.
* `Engine.InStep` — engines that differ in no more than what a load leaves alone.

## Main results

* `ArtifactStore.alike_memoryStore_iff` — stores in memory that are alike.
* `Engine.agree_reload` — loading the same brings engines in step, whatever they were before.
* `Engine.InStep.perform` — one operation keeps engines in step.
* `Engine.inStep_after_reload` — what a load has forgotten never shows again.
-/

namespace RegionPolicy

variable {δ σ : Type}

/-! ### Stores that are alike -/

namespace ArtifactStore

variable [ArtifactStore σ] [TextStore σ]

/-- A relation between stores that no call breaks or shows. Related stores hold the same texts. -/
structure Lockstep (same : σ → σ → Prop) : Prop where
  textAt_eq : ∀ {s s' : σ}, same s s' → TextStore.textAt s' = TextStore.textAt s
  read_eq : ∀ {s s' : σ}, same s s' → ∀ id, read s' id = read s id
  written_eq : ∀ {s s' : σ}, same s s' → ∀ id data,
    (write s' id data).1 = (write s id data).1
  write : ∀ {s s' : σ}, same s s' → ∀ id data, same (write s id data).2 (write s' id data).2

/-- Stores that hold the same texts and that no sequence of calls tells apart. -/
def Alike (s s' : σ) : Prop := ∃ same : σ → σ → Prop, Lockstep same ∧ same s s'

theorem lockstep_eq : Lockstep (@Eq σ) where
  textAt_eq := by rintro s _ rfl; rfl
  read_eq := by rintro s _ rfl id; rfl
  written_eq := by rintro s _ rfl id data; rfl
  write := by rintro s _ rfl id data; rfl

theorem Alike.of_eq {s s' : σ} (h : s = s') : Alike s s' := ⟨Eq, lockstep_eq, h⟩

/-- **Stores in memory are alike** just if they hold the same texts and fail at the same
artifacts. -/
theorem alike_memoryStore_iff {s s' : MemoryStore} :
    Alike s s' ↔
      s'.blobs = s.blobs ∧ s'.unreadable = s.unreadable ∧ s'.unwritable = s.unwritable := by
  constructor
  · rintro ⟨same, hlockstep, h⟩
    refine ⟨SortedMap.ext_get? fun id => ?_, SortedSet.ext_mem fun id => ?_,
      SortedSet.ext_mem fun id => ?_⟩
    · exact congrFun (hlockstep.textAt_eq h) id.text
    · have hread := hlockstep.read_eq h id
      rw [← SortedSet.contains_iff, ← SortedSet.contains_iff]
      cases hs : s.unreadable.contains id <;> cases hs' : s'.unreadable.contains id <;>
        simp_all [read]
    · have hwritten := hlockstep.written_eq h id ""
      rw [← SortedSet.contains_iff, ← SortedSet.contains_iff]
      cases hs : s.unwritable.contains id <;> cases hs' : s'.unwritable.contains id <;>
        simp_all [ArtifactStore.write]
  · rintro ⟨hblobs, hunreadable, hunwritable⟩
    refine .of_eq ?_
    cases s
    cases s'
    simp_all

namespace Alike

variable {s s' : σ}

theorem textAt_eq (h : Alike s s') : TextStore.textAt s' = TextStore.textAt s :=
  let ⟨_, hlockstep, hs⟩ := h
  hlockstep.textAt_eq hs

theorem text?_eq (h : Alike s s') (a : Artifact) : text? s' a = text? s a := by
  obtain ⟨same, hlockstep, hs⟩ := h
  rw [text?, text?, hlockstep.read_eq hs]

theorem loadGeometry_eq (h : Alike s s') (a : Artifact) :
    loadGeometry s' a = loadGeometry s a := by
  rw [loadGeometry, loadGeometry, h.text?_eq]

/-- Storing the same in both ends in the same way, and leaves them alike. -/
theorem exists_saveGeometry (h : Alike s s') (a : Artifact) (mode : SelectionMode)
    (nodes : List Position) :
    ∃ result t t', saveGeometry s a mode nodes = (result, t) ∧
      saveGeometry s' a mode nodes = (result, t') ∧ Alike t t' := by
  obtain ⟨same, hlockstep, hs⟩ := h
  refine ⟨_, _, _, rfl, Prod.ext ?_ rfl, same, hlockstep, hlockstep.write hs a.id _⟩
  exact hlockstep.written_eq hs a.id _

theorem prepare (h : Alike s s') (a : Artifact) : Alike (prepare s a) (prepare s' a) := by
  rw [ArtifactStore.prepare, ArtifactStore.prepare, h.text?_eq]
  split
  · obtain ⟨result, t, t', hx, hy, ht⟩ := h.exists_saveGeometry a .cuboid []
    rw [hx, hy]
    exact ht
  · exact h

theorem exists_resolveShape (h : Alike s s') (a : Option Artifact) :
    ∃ shape t t', resolveShape s a = (shape, t) ∧ resolveShape s' a = (shape, t') ∧
      Alike t t' := by
  cases a with
  | none => exact ⟨_, s, s', rfl, rfl, h⟩
  | some a =>
    have hprepared := h.prepare a
    refine ⟨_, _, _, rfl, Prod.ext ?_ rfl, hprepared⟩
    exact congrArg (shapeOr a) (hprepared.loadGeometry_eq a)

end Alike

end ArtifactStore

/-- The same definitions get the same drafts from stores that are alike. -/
theorem ArtifactStore.Alike.draftsOf [ArtifactStore σ] [TextStore σ] {s s' : σ} (h : Alike s s')
    (definitions : List RegionDefinition) :
    (Engine.draftsOf s' definitions).1 = (Engine.draftsOf s definitions).1 ∧
      Alike (Engine.draftsOf s definitions).2 (Engine.draftsOf s' definitions).2 := by
  induction definitions generalizing s s' with
  | nil => exact ⟨rfl, h⟩
  | cons d rest ih =>
    rw [Engine.draftsOf, Engine.draftsOf]
    split
    · exact ih h
    · obtain ⟨shape, t, t', hx, hy, ht⟩ := h.exists_resolveShape d.artifact
      obtain ⟨hdrafts, hleft⟩ := ih ht
      simp only [hx, hy, hdrafts]
      exact ⟨trivial, hleft⟩

/-! ### What a load leaves alone -/

namespace Presence

/-- Since two engines began to do the same, every actor either came to be in the same regions in
both, or stayed where it was in both. -/
def Converges (p₀ p₀' p p' : Presence) : Prop :=
  ∀ actor, p'.get? actor = p.get? actor ∨
    p.get? actor = p₀.get? actor ∧ p'.get? actor = p₀'.get? actor

variable {p₀ p₀' p p' : Presence}

theorem Converges.refl (p p' : Presence) : Converges p p' p p' := fun _ => .inr ⟨rfl, rfl⟩

theorem Converges.update (h : Converges p₀ p₀' p p') (actor : ActorId) (regions : List RegionId) :
    Converges p₀ p₀' (p.update actor regions).2 (p'.update actor regions).2 := by
  intro other
  rw [get?_update, get?_update]
  split
  · exact .inl rfl
  · exact h other

theorem Converges.erase (h : Converges p₀ p₀' p p') (actor : ActorId) :
    Converges p₀ p₀' (p.erase actor) (p'.erase actor) := by
  intro other
  rw [SortedMap.get?_erase, SortedMap.get?_erase]
  split
  · exact .inl rfl
  · exact h other

/-- Where an actor was is all that a report of its moves depends on. -/
theorem update_fst_eq {actor : ActorId} (h : p'.get? actor = p.get? actor)
    (regions : List RegionId) : (p'.update actor regions).1 = (p.update actor regions).1 := by
  rw [update, update, regionsOf, regionsOf, h]

end Presence

namespace Feed

variable {α : Type} {f₀ f₀' f f' : Feed α}

/-- Since two engines began to do the same, the same news came into both feeds, after what was
there already, unless that was read in the meantime. -/
def Abreast (f₀ f₀' f f' : Feed α) : Prop :=
  ∃ news, f = f₀.publishAll news ∧ f' = f₀'.publishAll news ∨
    f = f₀.drain.publishAll news ∧ f' = f₀'.drain.publishAll news

theorem Abreast.refl (f f' : Feed α) : Abreast f f' f f' :=
  ⟨[], .inl ⟨f.publishAll_nil.symm, f'.publishAll_nil.symm⟩⟩

theorem Abreast.publishAll (h : Abreast f₀ f₀' f f') (news : List α) :
    Abreast f₀ f₀' (f.publishAll news) (f'.publishAll news) := by
  obtain ⟨before, ⟨rfl, rfl⟩ | ⟨rfl, rfl⟩⟩ := h
  · exact ⟨before ++ news, .inl ⟨publishAll_publishAll .., publishAll_publishAll ..⟩⟩
  · exact ⟨before ++ news, .inr ⟨publishAll_publishAll .., publishAll_publishAll ..⟩⟩

theorem Abreast.publish (h : Abreast f₀ f₀' f f') (a : α) :
    Abreast f₀ f₀' (f.publish a) (f'.publish a) :=
  h.publishAll [a]

theorem drain_publishAll (f : Feed α) (news : List α) : (f.publishAll news).drain = f.drain := by
  rw [Feed.publishAll]
  split <;> rfl

theorem Abreast.drain (h : Abreast f₀ f₀' f f') : Abreast f₀ f₀' f.drain f'.drain := by
  refine ⟨[], .inr ?_⟩
  rw [publishAll_nil, publishAll_nil]
  obtain ⟨before, ⟨rfl, rfl⟩ | ⟨rfl, rfl⟩⟩ := h <;>
    exact ⟨drain_publishAll .., drain_publishAll ..⟩

end Feed

/-! ### What is said of presence -/

/-- An answer but for what it says of presence. -/
def Answer.withoutPresence : Answer → Answer
  | .decision result => .decision (result.map TransitionDecision.withoutPresence)
  | .left _ => .left none
  | answer => answer

/-- The actor of whose presence an answer tells. -/
def Operation.subject : Operation δ σ → Option ActorId
  | .transition request => request.actor.map (·.id)
  | .forget actor => some actor
  | _ => none

/-- Two answers to an operation are the same but for what they say of presence, and all the same if
the actor of whom they tell was in the same regions. -/
structure Operation.Concurs (op : Operation δ σ) (p p' : Presence) (a a' : Answer) : Prop where
  withoutPresence_eq : a'.withoutPresence = a.withoutPresence
  eq_of_subject : (∀ actor ∈ op.subject, p'.get? actor = p.get? actor) → a' = a

theorem Operation.concurs_of_eq {op : Operation δ σ} {p p' : Presence} {a a' : Answer}
    (h : a = a') : op.Concurs p p' a a' :=
  ⟨congrArg _ h.symm, fun _ => h.symm⟩

namespace Engine

/-! ### Engines in step -/

variable [DefinitionSource δ] [ArtifactStore σ] {e₀ e₀' e e' : Engine δ σ}

/-- A load leaves nothing behind that is not tidy. -/
theorem tidy_reload {definitions : List RegionDefinition}
    (hload : DefinitionSource.load e.source = .ok definitions) : e.reload.2.Tidy := by
  refine ⟨(forest_reload hload).2.2.1.keyed, fun hgraph => ?_⟩
  rw [reload_eq hload] at hgraph
  cases hgraph

variable [TextStore σ]

/-- Engines that differ in no more than what a load leaves alone, and have done the same since they
were at two others. -/
structure InStep (e₀ e₀' e e' : Engine δ σ) : Prop where
  load_eq : DefinitionSource.load e'.source = DefinitionSource.load e.source
  store : ArtifactStore.Alike e.store e'.store
  index_eq : e'.index = e.index
  cache_eq : e'.cache = e.cache
  registry_eq : e'.registry = e.registry
  presence : e₀.presence.Converges e₀'.presence e.presence e'.presence
  changes : e₀.changes.Abreast e₀'.changes e.changes e'.changes
  decisions : e₀.decisions.Abreast e₀'.decisions e.decisions e'.decisions

/-- No look at a flag tells engines in step apart, and none moves anyone. -/
theorem congruence_inStep (e₀ e₀' : Engine δ σ) (p p' : Presence) :
    Congruence fun e e' : Engine δ σ =>
      InStep e₀ e₀' e e' ∧ e.presence = p ∧ e'.presence = p' where
  index_eq h := h.1.index_eq
  registry_eq h := h.1.registry_eq
  bindingsFor := by
    rintro e e' ⟨h, hp⟩ r -
    have hbindings : e'.index.bindings r = e.index.bindings r := by rw [h.index_eq]
    simp only [bindingsFor, h.cache_eq, hbindings]
    cases e.cache.get? r.id with
    | some graph => exact ⟨rfl, h, hp⟩
    | none => exact ⟨rfl, { h with cache_eq := rfl }, hp⟩
  record := by
    rintro e e' ⟨h, hp⟩ decision
    cases decision with
    | none => exact ⟨h, hp⟩
    | some decision => exact ⟨{ h with decisions := h.decisions.publish decision }, hp⟩

/-- **Loading the same brings engines in step,** whatever regions they had and whatever they
kept. -/
theorem agree_reload {definitions : List RegionDefinition}
    (hload : DefinitionSource.load e.source = .ok definitions)
    (hload' : DefinitionSource.load e'.source = .ok definitions)
    (hstore : ArtifactStore.Alike e.store e'.store) (hregistry : e'.registry = e.registry)
    (hpresence : e₀.presence.Converges e₀'.presence e.presence e'.presence)
    (hchanges : e₀.changes.Abreast e₀'.changes e.changes e'.changes)
    (hdecisions : e₀.decisions.Abreast e₀'.decisions e.decisions e'.decisions) :
    Agree (InStep e₀ e₀') e.reload e'.reload := by
  obtain ⟨hdrafts, hleft⟩ := hstore.draftsOf definitions
  rw [reload_eq hload, reload_eq hload', hdrafts]
  exact ⟨rfl, {
    load_eq := hload'.trans hload.symm
    store := hleft
    index_eq := rfl
    cache_eq := rfl
    registry_eq := hregistry
    presence := hpresence
    changes := hchanges.publish .all
    decisions := hdecisions }⟩

namespace InStep

/-! ### What one operation does -/

theorem invalidate (h : InStep e₀ e₀' e e') (id : RegionId) :
    InStep e₀ e₀' (e.invalidate id) (e'.invalidate id) := by
  have hdescendants : e'.index.descendants id = e.index.descendants id := by rw [h.index_eq]
  rw [Engine.invalidate, Engine.invalidate, hdescendants]
  exact { h with
    cache_eq := congrArg (fun cache => (e.index.descendants id).foldl SortedMap.erase cache) h.cache_eq
    changes := h.changes.publishAll _ }

theorem foldl_invalidate (h : InStep e₀ e₀' e e') (ids : List RegionId) :
    InStep e₀ e₀' (ids.foldl Engine.invalidate e) (ids.foldl Engine.invalidate e') := by
  induction ids generalizing e e' with
  | nil => exact h
  | cons id rest ih => exact ih (h.invalidate id)

/-- Engines in step stay so when both get the same regions and stores that are alike. -/
theorem replace (h : InStep e₀ e₀' e e') {t t' : σ} (ht : ArtifactStore.Alike t t')
    {index index' : RegionIndex} (hindex : index' = index) :
    InStep e₀ e₀' { e with store := t, index } { e' with store := t', index := index' } :=
  { h with store := ht, index_eq := hindex }

theorem reload (h : InStep e₀ e₀' e e') : Agree (InStep e₀ e₀') e.reload e'.reload := by
  cases hload : DefinitionSource.load e.source with
  | ok definitions =>
    exact agree_reload hload (h.load_eq.trans hload) h.store h.registry_eq h.presence h.changes
      h.decisions
  | error failure =>
    rw [reload_eq_error hload, reload_eq_error (h.load_eq.trans hload)]
    exact ⟨rfl, h⟩

theorem commitRegion (h : InStep e₀ e₀' e e') (definition : RegionDefinition) (shape : Shape)
    (nodes : List Position) (mode : Option SelectionMode) :
    Agree (InStep e₀ e₀') (e.commitRegion definition shape nodes mode)
      (e'.commitRegion definition shape nodes mode) := by
  have hindex : e'.index.replaceShape definition shape = e.index.replaceShape definition shape := by
    rw [h.index_eq]
  cases hartifact : definition.artifact with
  | none =>
    simp only [Engine.commitRegion, hartifact]
    exact ⟨rfl, (h.replace h.store hindex).invalidate definition.id⟩
  | some a =>
    obtain ⟨result, t, t', hx, hy, ht⟩ :=
      h.store.exists_saveGeometry a (mode.getD (.ofShape shape)) (nodesFor nodes shape)
    simp only [Engine.commitRegion, hartifact, hx, hy]
    cases result with
    | error failure => exact ⟨rfl, h.replace ht h.index_eq⟩
    | ok => exact ⟨rfl, (h.replace ht hindex).invalidate definition.id⟩

theorem commitArtifact (h : InStep e₀ e₀' e e') (a : Artifact) (shape : Shape)
    (nodes : List Position) (mode : Option SelectionMode) :
    Agree (InStep e₀ e₀') (e.commitArtifact a shape nodes mode)
      (e'.commitArtifact a shape nodes mode) := by
  have husers : e'.index.usersOf a.id = e.index.usersOf a.id := by rw [h.index_eq]
  have hindex : e'.index.replaceShapes a.id shape = e.index.replaceShapes a.id shape := by
    rw [h.index_eq]
  simp only [Engine.commitArtifact, h.store.loadGeometry_eq a, husers]
  generalize mode.getD _ = mode
  obtain ⟨result, t, t', hx, hy, ht⟩ := h.store.exists_saveGeometry a mode (nodesFor nodes shape)
  simp only [hx, hy]
  cases result with
  | error failure => exact ⟨rfl, h.replace ht h.index_eq⟩
  | ok => exact ⟨rfl, (h.replace ht hindex).foldl_invalidate _⟩

/-- Being allowed to move, actors come to the same regions; what that changes for them depends on
where they were. -/
theorem allow (h : InStep e₀ e₀' e e') (request : TransitionRequest)
    (entered exited : Option RegionId) (effects : List TransitionEffect) :
    (Operation.transition (δ := δ) (σ := σ) request).Concurs e.presence e'.presence
        (.decision (.ok (e.allow request entered exited effects).1))
        (.decision (.ok (e'.allow request entered exited effects).1)) ∧
      InStep e₀ e₀' (e.allow request entered exited effects).2
        (e'.allow request entered exited effects).2 := by
  have hregions : e'.index.regionsAt request.destination =
      e.index.regionsAt request.destination := by rw [h.index_eq]
  cases hactor : request.actor with
  | none =>
    simp only [Engine.allow, hactor]
    exact ⟨Operation.concurs_of_eq rfl, h⟩
  | some actor =>
    simp only [Engine.allow, hactor, hregions]
    refine ⟨⟨rfl, fun hsubject => ?_⟩, { h with presence := h.presence.update actor.id _ }⟩
    have hsame : e'.presence.get? actor.id = e.presence.get? actor.id :=
      hsubject actor.id (by rw [Operation.subject, hactor]; rfl)
    rw [Presence.update_fst_eq hsame]

theorem transition (h : InStep e₀ e₀' e e') (hkeyed : e.index.Keyed Region.id)
    (request : TransitionRequest) :
    (Operation.transition (δ := δ) (σ := σ) request).Concurs e.presence e'.presence
        (.decision (e.transition request).1) (.decision (e'.transition request).1) ∧
      InStep e₀ e₀' (e.transition request).2 (e'.transition request).2 := by
  -- until the move is allowed nobody is moved, so the actor still is where it was
  rcases (congruence_inStep e₀ e₀' e.presence e'.presence).transition_cases hkeyed ⟨h, rfl, rfl⟩
    request with
    ⟨result, a, b, hx, hy, hab, -⟩ | ⟨entered, exited, effects, a, b, hx, hy, hab, hp, hp'⟩
  · rw [hx, hy]
    exact ⟨Operation.concurs_of_eq rfl, hab⟩
  · rw [hx, hy, ← hp, ← hp']
    exact hab.allow request entered exited effects

/-- **One operation keeps engines in step,** and they answer it in the same way but for what they
say of presence. -/
theorem perform (h : InStep e₀ e₀' e e') (hkeyed : e.index.Keyed Region.id)
    (op : Operation δ σ) :
    op.Concurs e.presence e'.presence (e.perform op).1 (e'.perform op).1 ∧
      InStep e₀ e₀' (e.perform op).2 (e'.perform op).2 := by
  have hagree : ∀ {x y : Answer × Engine δ σ}, Agree (InStep e₀ e₀') x y →
      op.Concurs e.presence e'.presence x.1 y.1 ∧ InStep e₀ e₀' x.2 y.2 :=
    fun hxy => ⟨Operation.concurs_of_eq hxy.1, hxy.2⟩
  have hR := congruence_inStep e₀ e₀' e.presence e'.presence
  have hsame : InStep e₀ e₀' e e' ∧ e.presence = e.presence ∧ e'.presence = e'.presence :=
    ⟨h, rfl, rfl⟩
  cases op with
  | setSource source => exact hagree ⟨rfl, { h with load_eq := rfl }⟩
  | setStore store => exact hagree ⟨rfl, { h with store := .of_eq rfl }⟩
  | setRegistry registry => exact hagree ⟨rfl, { h with registry_eq := rfl }⟩
  | reload => exact hagree (h.reload.map _)
  | commitRegion definition shape nodes mode =>
    exact hagree ((h.commitRegion definition shape nodes mode).map _)
  | commitArtifact a shape nodes mode =>
    exact hagree ((h.commitArtifact a shape nodes mode).map _)
  | evaluate target c key =>
    exact hagree ((hR.perform_evaluate hsame hkeyed target c key).imp And.left)
  | effective target key =>
    exact hagree ((hR.perform_effective hsame hkeyed target key).imp And.left)
  | inspect target =>
    exact hagree ((hR.perform_inspect hsame hkeyed target).imp And.left)
  | transition request => exact h.transition hkeyed request
  | invalidate target => exact hagree ⟨rfl, h.invalidate target⟩
  | invalidateAll =>
    exact hagree ⟨rfl, { h with cache_eq := rfl, changes := h.changes.publish .all }⟩
  | forget actor =>
    refine ⟨⟨rfl, fun hsubject => ?_⟩, { h with presence := h.presence.erase actor }⟩
    exact congrArg Answer.left (hsubject actor rfl)
  | drainFeeds =>
    exact hagree ⟨rfl, { h with changes := h.changes.drain, decisions := h.decisions.drain }⟩

/-- **A run keeps engines in step.** The induction is on the run, both engines being arbitrary. -/
theorem after (h : InStep e₀ e₀' e e') (htidy : e.Tidy) (ops : List (Operation δ σ)) :
    InStep e₀ e₀' (e.after ops) (e'.after ops) := by
  induction ops generalizing e e' with
  | nil => exact h
  | cons op rest ih => exact ih (h.perform htidy.keyed op).2 (htidy.of_perform op)

end InStep

/-! ### Runs -/

/-- **A load forgets the past.** Take two engines with the same handlers, whatever has become of
them so far, of which one loads what the other loads, over stores that are alike. Both loads succeed
with the same regions, and nothing is kept; and however they are used from then on, they stay in
step: they have the same regions with the same shapes, keep the same, hold the same texts, and get
the same news. They give the same answers, but for what these say of an actor who is not in the same
regions in both; and such an actor was not moved or forgotten since. -/
theorem inStep_after_reload {definitions : List RegionDefinition}
    (hregistry : e'.registry = e.registry)
    (hload : DefinitionSource.load e.source = .ok definitions)
    (hload' : DefinitionSource.load e'.source = .ok definitions)
    (hstore : ArtifactStore.Alike e.store e'.store) :
    (e.reload.1 = .ok (idsOf definitions).length ∧ e'.reload.1 = e.reload.1) ∧
      (e.reload.2.cache = ∅ ∧ e'.reload.2.cache = ∅) ∧
      ∀ ops : List (Operation δ σ),
        let a := e.reload.2.after ops
        let a' := e'.reload.2.after ops
        InStep e e' a a' ∧ TextStore.textAt a'.store = TextStore.textAt a.store ∧
          ∀ op : Operation δ σ,
            op.Concurs a.presence a'.presence (a.perform op).1 (a'.perform op).1 := by
  obtain ⟨hcount, hstep⟩ := agree_reload hload hload' hstore hregistry (.refl _ _) (.refl _ _)
    (.refl _ _)
  refine ⟨⟨(forest_reload hload).1, hcount.symm⟩, ⟨?_, ?_⟩, fun ops => ?_⟩
  · rw [reload_eq hload]
    rfl
  · rw [reload_eq hload']
    rfl
  · have htidy := tidy_reload hload
    have hafter := hstep.after htidy ops
    exact ⟨hafter, hafter.store.textAt_eq, fun op => (hafter.perform (htidy.after ops).keyed op).1⟩

/-! ### A meadow that was overgrown -/

section Overgrown

/-- The engine that loads the meadow, after a copse was brought into it. -/
def overgrown : Engine MemorySource MemoryStore :=
  (meadowEngine meadowStore).after [.commitRegion copse everywhere [] none]

/-- The copse is gone once the meadow is loaded, as if it had never been there. -/
theorem inStep_after_reload_overgrown :
    overgrown.index.get? copse.id = some (.ofDefinition copse everywhere) ∧
      overgrown.reload.1 = .ok 1 ∧
      overgrown.reload.2.index = (meadowEngine meadowStore).reload.2.index := by
  have hstore : ArtifactStore.Alike (meadowEngine meadowStore).store overgrown.store :=
    ArtifactStore.alike_memoryStore_iff.mpr ⟨rfl, rfl, rfl⟩
  have hregistry : overgrown.registry = (meadowEngine meadowStore).registry := rfl
  have hload : DefinitionSource.load overgrown.source = .ok [meadow] := rfl
  have hids : (idsOf [meadow]).length = 1 := by decide
  obtain ⟨⟨hcount, hsame⟩, -, hstep⟩ :=
    inStep_after_reload hregistry (load_meadowEngine meadowStore) hload hstore
  exact ⟨rfl, hids ▸ hsame.trans hcount, (hstep []).1.index_eq⟩

end Overgrown

end Engine

end RegionPolicy
