import RegionPolicy.Proofs.Commits
import RegionPolicy.Proofs.Collections
import RegionPolicy.Proofs.Evaluation
import RegionPolicy.Proofs.Runs

/-!
# Where actors are

An actor is where its last move that was allowed has taken it. A move that is blocked or fails, and
one that nobody makes, leave all actors where they are; so does everything else that can be asked of
an engine, a load and a commit included, even if the regions that an actor is in are no more. What a
move reports as entered and left is just the difference that it makes, so whoever adds up the
reports on an actor since it was last forgotten knows where it is.

Nothing is asked of the regions in force, of the handlers or of what is kept.

## Main definitions

* `PresenceChange.apply`, `PresenceChange.Takes` — what a change makes of a set of regions.
* `Presence.Settles` — what a move does to where actors are.
* `Engine.Wanders` — what an operation does to where actors are, and what it says of it.
* `received` — the changes that an actor was told of since it was last forgotten.

## Main results

* `Engine.settles_transition` — what every move does to where actors are.
* `Engine.wanders_perform` — every operation leaves actors where they are, forgets or moves one.
* `Engine.presence_after` — where actors are after a run.
-/

namespace RegionPolicy

/-! ### Changes -/

namespace PresenceChange

/-- What a change makes of a set of regions: those left are taken out, those entered put in. -/
def apply (c : PresenceChange) (s : SortedSet RegionId) : SortedSet RegionId :=
  (s.diff (.ofList c.exited)).union (.ofList c.entered)

/-- A change takes an actor out of some regions and into others. -/
structure Takes (c : PresenceChange) (before after : SortedSet RegionId) : Prop where
  /-- The regions entered are in strictly ascending order. -/
  entered_ascending : c.entered.Pairwise fun a b => compare a b = .lt
  /-- The regions left are in strictly ascending order. -/
  exited_ascending : c.exited.Pairwise fun a b => compare a b = .lt
  /-- No region is both entered and left. -/
  disjoint : c.entered.Disjoint c.exited
  /-- The change makes the one set of the other. -/
  apply_eq : c.apply before = after

end PresenceChange

namespace Presence

variable {p : Presence} {actor other : ActorId} {regions : List RegionId}

theorem update_fst (p : Presence) (actor : ActorId) (regions : List RegionId) :
    (p.update actor regions).1.Takes (p.regionsOf actor) (.ofList regions) where
  entered_ascending := SortedSet.ascending _
  exited_ascending := SortedSet.ascending _
  disjoint := by
    intro id hentered hexited
    exact (SortedSet.mem_diff.mp hexited).2 (SortedSet.mem_diff.mp hentered).1
  apply_eq := by
    refine SortedSet.ext_mem fun id => ?_
    simp only [PresenceChange.apply, update, SortedSet.mem_union, SortedSet.mem_diff,
      SortedSet.mem_ofList, SortedSet.mem_toList]
    by_cases hnow : id ∈ regions <;> by_cases hbefore : id ∈ p.regionsOf actor <;>
      simp [hnow, hbefore]

theorem get?_update (p : Presence) (actor : ActorId) (regions : List RegionId) (other : ActorId) :
    (p.update actor regions).2.get? other =
      if other = actor then
        if (SortedSet.ofList regions).isEmpty then none else some (.ofList regions)
      else p.get? other := by
  rw [update]
  dsimp only
  split
  · rw [SortedMap.get?_erase]
  · rw [SortedMap.get?_insert]

theorem eq_empty_of_isEmpty {s : SortedSet RegionId} (h : s.isEmpty) : s = ∅ := by
  refine SortedSet.ext_mem fun id => ?_
  have hnil : s.toList = [] := by simpa [SortedSet.isEmpty] using h
  rw [← SortedSet.mem_toList, hnil]
  simp

/-- An actor is put into the regions at its new place, and no other actor is touched. -/
theorem regionsOf_update_self (p : Presence) (actor : ActorId) (regions : List RegionId) :
    (p.update actor regions).2.regionsOf actor = .ofList regions := by
  rw [regionsOf, get?_update, if_pos rfl]
  split
  · rename_i hempty
    exact (eq_empty_of_isEmpty hempty).symm
  · rfl

theorem get?_update_of_ne (h : other ≠ actor) :
    (p.update actor regions).2.get? other = p.get? other := by
  rw [get?_update, if_neg h]

theorem regionsOf_update_of_ne (h : other ≠ actor) :
    (p.update actor regions).2.regionsOf other = p.regionsOf other := by
  rw [regionsOf, get?_update_of_ne h, regionsOf]

theorem regionsOf_erase (p : Presence) (actor other : ActorId) :
    regionsOf (p.erase actor) other = if other = actor then ∅ else p.regionsOf other := by
  rw [regionsOf, SortedMap.get?_erase]
  split <;> rfl

/-! ### Actors who are kept -/

/-- Nobody is kept who is in no region. -/
def Populated (p : Presence) : Prop :=
  ∀ actor regions, p.get? actor = some regions → regions.isEmpty = false

theorem populated_empty : Populated ∅ := fun actor regions h => by cases h

theorem Populated.erase (h : p.Populated) (actor : ActorId) : Populated (p.erase actor) := by
  intro other regions hother
  rw [SortedMap.get?_erase] at hother
  split at hother
  · cases hother
  · exact h other regions hother

theorem Populated.update (h : p.Populated) (actor : ActorId) (regions : List RegionId) :
    Populated (p.update actor regions).2 := by
  intro other kept hother
  rw [get?_update] at hother
  split at hother
  · split at hother
    · cases hother
    · rename_i hempty
      rw [← Option.some.inj hother]
      simpa using hempty
  · exact h other kept hother

/-- The actors who are kept are those who are in some region. -/
theorem Populated.mem_keys_iff (h : p.Populated) : actor ∈ p.keys ↔ p.regionsOf actor ≠ ∅ := by
  rw [SortedMap.mem_keys_iff, regionsOf]
  cases hactor : p.get? actor with
  | none => simp
  | some regions =>
    have hregions := h actor regions hactor
    refine iff_of_true rfl fun hempty => ?_
    rw [Option.getD_some] at hempty
    rw [hempty] at hregions
    cases hregions

/-! ### Moves -/

/-- What a move does to where actors are. A move that is allowed takes the actor to the regions
that are there, reports the difference, and touches nobody else. Any other move, and a move that
nobody makes, leaves all actors where they are. -/
def Settles (before : Presence) (request : TransitionRequest) (here : List RegionId)
    (decision : Except HandlerError TransitionDecision) (after : Presence) : Prop :=
  match decision, request.actor with
  | .ok (.allowed _ _ _ change), some actor =>
    after.regionsOf actor.id = .ofList here ∧
      change.Takes (before.regionsOf actor.id) (after.regionsOf actor.id) ∧
      ∀ other ≠ actor.id, after.get? other = before.get? other
  | _, _ => after = before

end Presence

namespace Engine

variable {δ σ : Type} {e e' e'' : Engine δ σ}

/-- Engines that differ in what is kept and what is on record at most. -/
def Glances (e e' : Engine δ σ) : Prop :=
  ∃ cache decisions, e' = { e with cache, decisions }

namespace Glances

theorem refl (e : Engine δ σ) : Glances e e := ⟨e.cache, e.decisions, rfl⟩

theorem trans (h₁ : Glances e e') (h₂ : Glances e' e'') : Glances e e'' := by
  obtain ⟨_, _, rfl⟩ := h₁
  obtain ⟨cache, decisions, rfl⟩ := h₂
  exact ⟨cache, decisions, rfl⟩

theorem presence (h : Glances e e') : e'.presence = e.presence := by
  obtain ⟨_, _, rfl⟩ := h
  rfl

theorem index (h : Glances e e') : e'.index = e.index := by
  obtain ⟨_, _, rfl⟩ := h
  rfl

end Glances

theorem glances_bindingsFor (e : Engine δ σ) (r : Region) : Glances e (e.bindingsFor r).2 := by
  obtain ⟨cache, hcache⟩ := e.bindingsFor_snd r
  exact ⟨cache, e.decisions, hcache⟩

theorem glances_record (e : Engine δ σ) (decision : Option Decision) :
    Glances e (e.record decision) := by
  cases decision with
  | none => exact .refl e
  | some decision => exact ⟨e.cache, e.decisions.publish decision, rfl⟩

theorem glances_evaluate (e : Engine δ σ) (c : Context) (key : FlagKey) :
    Glances e (e.evaluate c key).2 := by
  have hfound := e.glances_bindingsFor c.region
  rw [evaluate]
  split
  · exact .refl e
  · dsimp only
    split
    · exact hfound
    · exact hfound.trans (glances_record ..)

theorem glances_collect (e : Engine δ σ) (c : Context) (keys : List FlagKey) :
    Glances e (e.collect c keys).2 := by
  induction keys generalizing e with
  | nil => exact .refl e
  | cons key rest ih =>
    have hlook := e.glances_evaluate c key
    rcases hx : e.evaluate c key with ⟨failure | verdict, e₁⟩ <;> rw [hx] at hlook
    · simpa only [collect, hx] using hlook
    · have hrest := hlook.trans (ih e₁)
      rcases hy : e₁.collect c rest with ⟨failure | effects, e₂⟩ <;> rw [hy] at hrest <;>
        simpa only [collect, hx, hy] using hrest

theorem glances_judgeGate (e : Engine δ σ) (c : Context) (gate : Gate) :
    Glances e (e.judgeGate c gate).2 := by
  rw [judgeGate]
  split
  · exact .refl e
  · exact e.glances_evaluate c gate.flag

theorem glances_passGate (e : Engine δ σ) (request : TransitionRequest) (gate : Gate)
    (region : Option Region) : Glances e (e.passGate request gate region).2 := by
  cases region with
  | none => exact .refl e
  | some r =>
    have hjudged := e.glances_judgeGate (gate.context request r) gate
    rcases hx : e.judgeGate (gate.context request r) gate with ⟨failure | verdict, e₁⟩ <;>
      rw [hx] at hjudged
    · simpa only [passGate, hx] using hjudged
    · have hcollected := fun keys =>
        hjudged.trans (e₁.glances_collect (gate.context request r) keys)
      cases verdict with
      | denied reason =>
        have hcollected := hcollected gate.denialFlags
        rcases hy : e₁.collect (gate.context request r) gate.denialFlags with ⟨_ | _, e₂⟩ <;>
          rw [hy] at hcollected <;> simpa only [passGate, hx, hy] using hcollected
      | _ =>
        have hcollected := hcollected gate.followUpFlags
        rcases hy : e₁.collect (gate.context request r) gate.followUpFlags with ⟨_ | _, e₂⟩ <;>
          rw [hy] at hcollected <;> simpa only [passGate, hx, hy] using hcollected

/-- **How a move ends.** It fails, or it is blocked, and nothing has changed but what is kept and
what is on record; or it is allowed. -/
theorem transition_cases (e : Engine δ σ) (request : TransitionRequest) :
    (∃ failure e', e.transition request = (.error failure, e') ∧ Glances e e') ∨
      (∃ region flag reason effects e',
        e.transition request = (.ok (.blocked region flag reason effects), e') ∧ Glances e e') ∨
      ∃ entered exited effects e', e.transition request =
        (e'.allow request entered exited effects).map .ok id ∧ Glances e e' := by
  rw [transition]
  dsimp only
  split
  · exact .inr (.inr ⟨none, none, [], e, rfl, .refl e⟩)
  · have hentry := e.glances_passGate request .entry (e.index.dominantAt request.destination)
    rcases hx : e.passGate request .entry (e.index.dominantAt request.destination) with
      ⟨failure | entering | ⟨region, flag, reason, effects⟩, e₁⟩ <;> rw [hx] at hentry
    · exact .inl ⟨failure, e₁, rfl, hentry⟩
    · have hexit := hentry.trans
        (e₁.glances_passGate request .exit (e.index.dominantAt request.origin))
      rcases hy : e₁.passGate request .exit (e.index.dominantAt request.origin) with
        ⟨failure | leaving | ⟨region, flag, reason, effects⟩, e₂⟩ <;> rw [hy] at hexit
      · exact .inl ⟨failure, e₂, by simp only [hy], hexit⟩
      · exact .inr (.inr ⟨_, _, entering ++ leaving, e₂, by simp only [hy]; rfl, hexit⟩)
      · exact .inr (.inl ⟨region, flag, reason, effects, e₂, by simp only [hy], hexit⟩)
    · exact .inr (.inl ⟨region, flag, reason, effects, e₁, rfl, hentry⟩)

/-- A move changes nothing but what is kept, where actors are, and what is on record. -/
theorem transition_snd (e : Engine δ σ) (request : TransitionRequest) :
    ∃ cache presence decisions,
      (e.transition request).2 = { e with cache, presence, decisions } := by
  rcases e.transition_cases request with
    ⟨failure, _, heq, cache, decisions, rfl⟩ |
    ⟨region, flag, reason, effects, _, heq, cache, decisions, rfl⟩ |
    ⟨entered, exited, effects, _, heq, cache, decisions, rfl⟩
  · exact ⟨cache, e.presence, decisions, congrArg Prod.snd heq⟩
  · exact ⟨cache, e.presence, decisions, congrArg Prod.snd heq⟩
  · rw [heq, allow]
    split
    · exact ⟨cache, e.presence, decisions, rfl⟩
    · exact ⟨cache, _, decisions, rfl⟩

/-- **What every move does to where actors are,** whatever state the engine is in. -/
theorem settles_transition (e : Engine δ σ) (request : TransitionRequest) :
    e.presence.Settles request ((e.index.regionsAt request.destination).map Region.id)
      (e.transition request).1 (e.transition request).2.presence := by
  rcases e.transition_cases request with
    ⟨failure, e', heq, hglances⟩ | ⟨region, flag, reason, effects, e', heq, hglances⟩ |
    ⟨entered, exited, effects, e', heq, hglances⟩
  · rw [heq]
    exact hglances.presence
  · rw [heq]
    exact hglances.presence
  · rw [heq, allow, ← hglances.presence, ← hglances.index]
    cases hactor : request.actor with
    | none => simp only [Presence.Settles, hactor, Prod.map]; rfl
    | some actor =>
      simp only [Presence.Settles, hactor, Prod.map, id]
      rw [Presence.regionsOf_update_self]
      exact ⟨rfl, Presence.update_fst .., fun other hother => Presence.get?_update_of_ne hother⟩

end Engine

/-! ### Reports -/

section Reports

variable {δ σ : Type}

/-- The changes that an actor was told of, with one operation and its answer more. Once the actor
is forgotten the list starts anew. -/
def tell (actor : ActorId) (told : List PresenceChange) :
    Operation δ σ × Answer → List PresenceChange
  | (.forget other, _) => if other = actor then [] else told
  | (.transition request, .decision (.ok (.allowed _ _ _ change))) =>
    if request.actor.any fun a => a.id = actor then told ++ [change] else told
  | _ => told

/-- The changes that an actor was told of since it was last forgotten. -/
def received (actor : ActorId) (transcript : List (Operation δ σ × Answer)) :
    List PresenceChange :=
  transcript.foldl (tell actor) []

/-- The regions that some changes lead to, one after the other, from no region at all. -/
def replay (changes : List PresenceChange) : SortedSet RegionId :=
  changes.foldl (fun s change => change.apply s) ∅

theorem replay_concat (changes : List PresenceChange) (change : PresenceChange) :
    replay (changes ++ [change]) = change.apply (replay changes) := by
  rw [replay, List.foldl_concat, replay]

theorem received_concat (actor : ActorId) (transcript : List (Operation δ σ × Answer))
    (entry : Operation δ σ × Answer) :
    received actor (transcript ++ [entry]) = tell actor (received actor transcript) entry := by
  rw [received, List.foldl_concat, received]

end Reports

/-! ### Runs -/

namespace Engine

variable {δ σ : Type} {e : Engine δ σ} {op : Operation δ σ} {answer : Answer} {after : Presence}

/-- What an operation does to where actors are, and what it says of it. -/
inductive Wanders (e : Engine δ σ) : Operation δ σ → Answer → Presence → Prop where
  /-- All actors stay where they are, and nobody is told of a change. -/
  | stay {op : Operation δ σ} {answer : Answer}
    (h : ∀ actor told, tell actor told (op, answer) = told) : Wanders e op answer e.presence
  /-- An actor is forgotten. -/
  | leave {actor : ActorId} {answer : Answer} :
    Wanders e (.forget actor) answer (e.presence.erase actor)
  /-- An actor moves, and is told of the change. -/
  | move {request : TransitionRequest} {actor : Actor} {entered exited : Option RegionId}
    {effects : List TransitionEffect} {here : List RegionId} (hactor : request.actor = some actor) :
    Wanders e (.transition request)
      (.decision (.ok (.allowed entered exited effects (e.presence.update actor.id here).1)))
      (e.presence.update actor.id here).2

theorem Wanders.populated (h : Wanders e op answer after) (hpopulated : e.presence.Populated) :
    after.Populated := by
  cases h with
  | stay _ => exact hpopulated
  | leave => exact hpopulated.erase _
  | move _ => exact hpopulated.update _ _

/-- What an actor was told keeps up with where it is. -/
theorem Wanders.replay_tell (h : Wanders e op answer after) {actor : ActorId}
    {told : List PresenceChange} (htold : replay told = e.presence.regionsOf actor) :
    replay (tell actor told (op, answer)) = after.regionsOf actor := by
  cases h with
  | stay hquiet => rw [hquiet, htold]
  | @leave other _ =>
    rw [tell, Presence.regionsOf_erase]
    by_cases hother : other = actor
    · rw [if_pos hother, if_pos hother.symm]
      rfl
    · rw [if_neg hother, if_neg (Ne.symm hother), htold]
  | @move request other _ _ _ here hother =>
    simp only [tell, hother, Option.any_some]
    by_cases hactor : other.id = actor
    · subst hactor
      rw [if_pos (by simp), replay_concat, htold, Presence.regionsOf_update_self]
      exact (Presence.update_fst ..).apply_eq
    · rw [if_neg (by simpa using hactor), htold,
        Presence.regionsOf_update_of_ne (Ne.symm hactor)]

theorem glances_ask {id : RegionId} {question : Region → Answer × Engine δ σ}
    (h : ∀ r, Glances e (question r).2) : Glances e (e.ask id question).2 := by
  rw [ask]
  split
  · exact .refl e
  · exact h _

variable [DefinitionSource δ] [ArtifactStore σ]

theorem wanders_transition (e : Engine δ σ) (request : TransitionRequest) :
    Wanders e (.transition request) (e.perform (.transition request)).1
      (e.perform (.transition request)).2.presence := by
  rw [perform]
  rcases e.transition_cases request with
    ⟨failure, e', heq, hglances⟩ | ⟨region, flag, reason, effects, e', heq, hglances⟩ |
    ⟨entered, exited, effects, e', heq, hglances⟩ <;> rw [heq]
  · exact hglances.presence ▸ .stay fun _ _ => rfl
  · exact hglances.presence ▸ .stay fun _ _ => rfl
  · cases hactor : request.actor with
    | none =>
      simp only [allow, hactor]
      refine hglances.presence ▸ .stay fun actor told => ?_
      simp [tell, hactor]
    | some actor =>
      simp only [allow, hactor, hglances.presence]
      exact .move hactor

/-- **Every operation leaves actors where they are, forgets one, or moves one.** -/
theorem wanders_perform (e : Engine δ σ) (op : Operation δ σ) :
    Wanders e op (e.perform op).1 (e.perform op).2.presence := by
  have hstay : ∀ {op : Operation δ σ} {answer : Answer} {after : Presence},
      (∀ actor told, tell actor told (op, answer) = told) → after = e.presence →
        Wanders e op answer after := fun hquiet hafter => hafter ▸ .stay hquiet
  cases op with
  | setSource | setStore | setRegistry | invalidate | invalidateAll | drainFeeds =>
    exact .stay fun _ _ => rfl
  | reload =>
    refine hstay (fun _ _ => rfl) ?_
    rw [perform, reload]
    cases DefinitionSource.load e.source <;> rfl
  | commitRegion definition shape nodes mode =>
    refine hstay (fun _ _ => rfl) ?_
    obtain ⟨store, ⟨failure, hfailed⟩ | hdone⟩ := e.commitRegion_cases definition shape nodes mode
    · rw [perform, hfailed]
      rfl
    · rw [perform, hdone]
      rfl
  | commitArtifact a shape nodes mode =>
    refine hstay (fun _ _ => rfl) ?_
    obtain ⟨store, ⟨failure, hfailed⟩ | hdone⟩ := e.commitArtifact_cases a shape nodes mode
    · rw [perform, hfailed]
      rfl
    · obtain ⟨cache, changes, hforget⟩ := foldl_invalidate_eq
        { e with store, index := e.index.replaceShapes a.id shape } (e.index.usersOf a.id)
      rw [perform, hdone, hforget]
      rfl
  | evaluate target c key =>
    refine hstay (fun _ _ => rfl) (glances_ask fun r => ?_).presence
    exact e.glances_evaluate (c.forRegion r) key
  | effective target key =>
    exact hstay (fun _ _ => rfl) (glances_ask fun r => e.glances_bindingsFor r).presence
  | inspect target =>
    exact hstay (fun _ _ => rfl) (glances_ask fun r => e.glances_bindingsFor r).presence
  | transition request => exact e.wanders_transition request
  | forget actor => exact .leave

/-- **Where actors are after a run,** of whatever operations in whatever order. A move is allowed
and takes the actor to the regions that are there, or it leaves all actors where they are. The
changes that an actor was told of since it was last forgotten lead, from no region at all, to where
it is. And the actors who are kept are those who are in some region. -/
theorem presence_after (source : δ) (store : σ) (registry : Registry) (buffer : Nat)
    (listening : Bool) (ops : List (Operation δ σ)) :
    let e₀ := start source store registry buffer listening
    let e := e₀.after ops
    (∀ request, e.presence.Settles request
        ((e.index.regionsAt request.destination).map Region.id)
        (e.transition request).1 (e.transition request).2.presence) ∧
      (∀ actor, replay (received actor (e₀.transcript ops)) = e.presence.regionsOf actor) ∧
      ∃ actors : List ActorId, actors.Nodup ∧
        (∀ actor, actor ∈ actors ↔ e.presence.regionsOf actor ≠ ∅) ∧
        actors.length = e.presence.size := by
  intro e₀ e
  have hrun : e.presence.Populated ∧
      ∀ actor, replay (received actor (e₀.transcript ops)) = e.presence.regionsOf actor := by
    show (e₀.after ops).presence.Populated ∧
      ∀ actor, replay (received actor (e₀.transcript ops)) = (e₀.after ops).presence.regionsOf actor
    induction ops using List.reverseRecOn with
    | nil => exact ⟨Presence.populated_empty, fun _ => rfl⟩
    | append_singleton ops op ih =>
      obtain ⟨hpopulated, hreplay⟩ := ih
      have hstep := wanders_perform (e₀.after ops) op
      rw [after_append, after_singleton, transcript_concat]
      refine ⟨hstep.populated hpopulated, fun actor => ?_⟩
      rw [received_concat]
      exact hstep.replay_tell (hreplay actor)
  exact ⟨e.settles_transition, hrun.2, e.presence.keys, SortedMap.nodup_keys _,
    fun _ => hrun.1.mem_keys_iff, SortedMap.length_keys _⟩

end Engine

end RegionPolicy
