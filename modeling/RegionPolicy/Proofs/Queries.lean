import RegionPolicy.Query
import RegionPolicy.Proofs.Freshness
import RegionPolicy.Proofs.JsonText
import RegionPolicy.Proofs.Presence
import RegionPolicy.Proofs.Standing

/-!
# What a line can do to an engine

Whoever writes lines to an engine can do no harm by it. A line is answered by a record with one
field, `ok` or `error`, whatever it says. If it is no query, asks for what there is not, or fails,
then all regions, actors and texts are where they were. A move moves its actor, if anyone; a load
moves no one; and all other queries only look, at no region but the one that they ask about.

A line that is a query is one operation at most, so whatever operations keep up is kept up by lines
as well. Of what an engine can come to, all that is asked here is that every region stands under its
own id: otherwise a look at one region would be kept for another.

## Main definitions

* `Query.region?` — the region that a query asks about.
* `Query.Spares` — what an answered query leaves as it was.
* `Engine.Harmless` — what a query may do to an engine, by the answer that it gets.
* `Engine.Reachable` — the engines that operations and lines lead to.

## Main results

* `Engine.harmless_answer` — no query does more than it may.
* `Engine.exists_perform_of_answer` — a query is one operation at most.
* `Engine.Reachable.tidy` — lines keep an engine tidy.
* `Engine.answerLine_harmless` — what a line can do to an engine.
-/

namespace RegionPolicy

open Json

/-! ### Moves -/

/-- Wherever a move ends, nobody but its actor is touched. -/
theorem Presence.Settles.get?_of_ne {before after : Presence} {request : TransitionRequest}
    {here : List RegionId} {decision : Except HandlerError TransitionDecision}
    (h : before.Settles request here decision after) {other : ActorId}
    (hother : ∀ a ∈ request.actor, other ≠ a.id) : after.get? other = before.get? other := by
  unfold Presence.Settles at h
  split at h
  · rename_i actor hactor
    exact h.2.2 other (hother actor hactor)
  · rw [h]

namespace Engine

variable {δ σ : Type} {e e' : Engine δ σ}

theorem Glances.store (h : Glances e e') : e'.store = e.store := by
  obtain ⟨_, _, rfl⟩ := h
  rfl

/-- A move that fails touches nothing but what is kept and what is on record. -/
theorem glances_of_transition_error {request : TransitionRequest} {failure : HandlerError}
    (h : e.transition request = (.error failure, e')) : Glances e e' := by
  rcases e.transition_cases request with
    ⟨reason, e₁, heq, hglances⟩ | ⟨region, flag, reason, effects, e₁, heq, -⟩ |
    ⟨entered, exited, effects, e₁, heq, -⟩ <;> rw [heq] at h
  · exact (Prod.mk.inj h).2 ▸ hglances
  · cases h
  · cases h

/-! ### What looking adds to what is kept -/

/-- What a look at one region may add to what is kept: the bindings of that region. -/
def KeepsOnly (e e' : Engine δ σ) (asked : Option RegionId) : Prop :=
  ∀ id, e'.cache.get? id = e.cache.get? id ∨
    asked = some id ∧ e.cache.get? id = none ∧ e'.cache.get? id = e.bearing id

theorem KeepsOnly.refl (e : Engine δ σ) (asked : Option RegionId) : KeepsOnly e e asked :=
  fun _ => .inl rfl

/-- What is added by looking is right, so all that counts is for which regions. -/
theorem Looks.keepsOnly (h : Looks e e') {asked : RegionId}
    (hothers : ∀ id, id ≠ asked → e'.cache.get? id = e.cache.get? id) :
    KeepsOnly e e' (some asked) := by
  intro id
  by_cases hid : id = asked
  · exact (h.cache id).imp_right fun hadded => ⟨congrArg some hid.symm, hadded⟩
  · exact .inl (hothers id hid)

theorem cache_bindingsFor_of_ne {r : Region} {id : RegionId} (h : id ≠ r.id) :
    (e.bindingsFor r).2.cache.get? id = e.cache.get? id := by
  rw [bindingsFor]
  split
  · rfl
  · show SortedMap.get? (e.cache.insert r.id (e.index.bindings r)) id = _
    rw [SortedMap.get?_insert_of_ne _ _ h]

theorem keepsOnly_evaluate {c : Context} (hc : e.index.get? c.region.id = some c.region)
    (key : FlagKey) : KeepsOnly e (e.evaluate c key).2 (some c.region.id) := by
  refine (looks_evaluate hc key).keepsOnly fun id hid => ?_
  cases hentry : e.registry key with
  | none => rw [evaluate, hentry]
  | some entry => rw [cache_evaluate hentry, cache_bindingsFor_of_ne hid]

theorem keepsOnly_inspect {r : Region} (hr : e.index.get? r.id = some r) :
    KeepsOnly e (e.inspect r).2 (some r.id) :=
  (looks_inspect hr).keepsOnly fun _ hid => cache_bindingsFor_of_ne hid

end Engine

/-! ### Queries -/

namespace Query

/-- The region that a query asks about, if it asks about one. -/
def region? : Query → Option RegionId
  | evaluate region _ _ _ _ => some region
  | inspect region => some region
  | _ => none

/-- What an answered query leaves as it was. A move leaves all regions and texts, and everyone but
its actor; a load leaves all actors. All other queries leave regions, actors and texts, and add
nothing to what is kept but the bindings of the region that they ask about. -/
def Spares {δ σ : Type} (e e' : Engine δ σ) : Query → Prop
  | transition _ _ _ actor =>
    e'.index = e.index ∧ e'.store = e.store ∧
      ∀ other, (∀ a ∈ actor, other ≠ a.id) → e'.presence.get? other = e.presence.get? other
  | reload => e'.presence = e.presence
  | query =>
    e'.index = e.index ∧ e'.presence = e.presence ∧ e'.store = e.store ∧
      e.KeepsOnly e' query.region?

end Query

namespace Engine

variable {δ σ : Type} {e e' : Engine δ σ}

/-- What a query may do to an engine, by the answer that it gets. -/
def Harmless (e : Engine δ σ) (query : Query) : Except QueryError Value × Engine δ σ → Prop
  | (.error _, e') => Glances e e'
  | (.ok _, e') => query.Spares e e'

section Answers

variable [DefinitionSource δ] [ArtifactStore σ]

theorem harmless_evaluate {id : RegionId} {r : Region} (hr : e.index.get? id = some r)
    (hid : r.id = id) (flag : FlagKey) (action : Option FlagAction) (actor : Option Actor)
    (location : Option Position) :
    let query : Query := .evaluate id flag action actor location
    e.Harmless query (e.answer query) := by
  intro query
  let c : Context := { region := r, action := action.getD Query.defaultAction, actor, location }
  have hglances := e.glances_evaluate c flag
  have hkeeps : KeepsOnly e (e.evaluate c flag).2 (some id) :=
    hid ▸ keepsOnly_evaluate (c := c) (hid ▸ hr) flag
  rcases hresult : e.evaluate c flag with ⟨failure | verdict, e'⟩ <;>
    rw [hresult] at hglances hkeeps <;> simp only [query, answer, hr, c, hresult]
  · exact hglances
  · exact ⟨hglances.index, hglances.presence, hglances.store, hkeeps⟩

theorem harmless_inspect {id : RegionId} {r : Region} (hr : e.index.get? id = some r)
    (hid : r.id = id) : e.Harmless (.inspect id) (e.answer (.inspect id)) := by
  have hglances : Glances e (e.inspect r).2 := e.glances_bindingsFor r
  have hkeeps : KeepsOnly e (e.inspect r).2 (some id) := hid ▸ keepsOnly_inspect (hid ▸ hr)
  simp only [answer, hr]
  exact ⟨hglances.index, hglances.presence, hglances.store, hkeeps⟩

theorem harmless_transition (e : Engine δ σ) (origin destination : Position)
    (action : Option FlagAction) (actor : Option Actor) :
    let query : Query := .transition origin destination action actor
    e.Harmless query (e.answer query) := by
  intro query
  let request : TransitionRequest :=
    ⟨actor, origin, destination, action.getD Query.defaultAction⟩
  obtain ⟨cache, presence, decisions, hframe⟩ := e.transition_snd request
  have hsettles := e.settles_transition request
  rcases hresult : e.transition request with ⟨failure | decision, e'⟩ <;>
    rw [hresult] at hframe hsettles <;> simp only [query, answer, request, hresult]
  · exact glances_of_transition_error hresult
  · subst hframe
    exact ⟨rfl, rfl, fun other hother => Presence.Settles.get?_of_ne hsettles hother⟩

theorem harmless_reload (e : Engine δ σ) : e.Harmless .reload (e.answer .reload) := by
  cases hload : DefinitionSource.load e.source with
  | error failure =>
    simp only [answer, reload_eq_error hload]
    exact .refl e
  | ok definitions =>
    simp only [answer, reload_eq hload]
    rfl

/-- **No query does more than it may.** -/
theorem harmless_answer (hkeyed : e.index.Keyed Region.id) (query : Query) :
    e.Harmless query (e.answer query) := by
  cases query with
  | regionsAt position => exact ⟨rfl, rfl, rfl, .refl e _⟩
  | evaluate id flag action actor location =>
    cases hr : e.index.get? id with
    | none =>
      simp only [answer, hr]
      exact .refl e
    | some r => exact harmless_evaluate hr (hkeyed id r hr) flag action actor location
  | transition origin destination action actor =>
    exact e.harmless_transition origin destination action actor
  | inspect id =>
    cases hr : e.index.get? id with
    | none =>
      simp only [answer, hr]
      exact .refl e
    | some r => exact harmless_inspect hr (hkeyed id r hr)
  | reload => exact e.harmless_reload

/-- **A query is one operation at most.** -/
theorem exists_perform_of_answer (e : Engine δ σ) (query : Query) :
    (e.answer query).2 = e ∨ ∃ op, (e.answer query).2 = (e.perform op).2 := by
  cases query with
  | regionsAt position => exact .inl rfl
  | evaluate id flag action actor location =>
    cases hr : e.index.get? id with
    | none => exact .inl (by simp only [answer, hr])
    | some r =>
      let c : Context :=
        { region := r, action := action.getD Query.defaultAction, actor, location }
      refine .inr ⟨.evaluate id c flag, ?_⟩
      simp only [answer, perform, ask, hr]
      show _ = (e.evaluate c flag).2
      rcases e.evaluate c flag with ⟨failure | verdict, e'⟩ <;> rfl
  | transition origin destination action actor =>
    let request : TransitionRequest :=
      ⟨actor, origin, destination, action.getD Query.defaultAction⟩
    refine .inr ⟨.transition request, ?_⟩
    rw [answer, perform]
    rcases e.transition request with ⟨failure | decision, e'⟩ <;> rfl
  | inspect id =>
    cases hr : e.index.get? id with
    | none => exact .inl (by simp only [answer, hr])
    | some r =>
      refine .inr ⟨.inspect id, ?_⟩
      simp only [answer, perform, ask, hr]
      rfl
  | reload =>
    refine .inr ⟨.reload, ?_⟩
    rw [answer, perform]
    rcases e.reload with ⟨failure | count, e'⟩ <;> rfl

end Answers

/-! ### Lines -/

section Responses

variable {result : Except QueryError Value} {value : Value}

theorem exists_response (result : Except QueryError Value) :
    ∃ field value, (field = "ok" ∨ field = "error") ∧
      response result = .object [(field, value)] := by
  cases result with
  | error failure => exact ⟨"error", _, .inr rfl, rfl⟩
  | ok value => exact ⟨"ok", value, .inl rfl, rfl⟩

theorem exists_failure_of_response (h : response result = .object [("error", value)]) :
    ∃ failure, result = .error failure := by
  cases result with
  | error failure => exact ⟨failure, rfl⟩
  | ok value => simp [response] at h

theorem exists_value_of_response (h : response result = .object [("ok", value)]) :
    ∃ value, result = .ok value := by
  cases result with
  | error failure => simp [response] at h
  | ok value => exact ⟨value, rfl⟩

end Responses

section Lines

variable [DefinitionSource δ] [ArtifactStore σ]

/-- A line is no query, and then it is answered by a report; or it is answered as a query. -/
theorem answerLine_cases (e : Engine δ σ) (line : String) :
    (∃ cause, decodeText Query.decode line = .error cause ∧
        e.answerLine line = (response (.error (.malformed cause)), e)) ∨
      ∃ query, decodeText Query.decode line = .ok query ∧
        e.answerLine line = (response (e.answer query).1, (e.answer query).2) := by
  rw [answerLine]
  cases hquery : decodeText Query.decode line with
  | error cause => exact .inl ⟨cause, rfl, rfl⟩
  | ok query => exact .inr ⟨query, rfl, rfl⟩

theorem Tidy.answerLine (h : e.Tidy) (line : String) : (e.answerLine line).2.Tidy := by
  rcases e.answerLine_cases line with ⟨cause, -, heq⟩ | ⟨query, -, heq⟩ <;> rw [heq]
  · exact h
  · rcases e.exists_perform_of_answer query with hsame | ⟨op, hop⟩
    · exact hsame.symm ▸ h
    · exact hop.symm ▸ h.of_perform op

/-- The engines that operations and lines lead to, in whatever order. -/
inductive Reachable : Engine δ σ → Prop where
  | start (source : δ) (store : σ) (registry : Registry) (buffer : Nat) (listening : Bool) :
    Reachable (start source store registry buffer listening)
  | perform {e : Engine δ σ} (h : Reachable e) (op : Operation δ σ) : Reachable (e.perform op).2
  | line {e : Engine δ σ} (h : Reachable e) (line : String) : Reachable (e.answerLine line).2

theorem Reachable.tidy (h : e.Reachable) : e.Tidy := by
  induction h with
  | start source store registry buffer listening =>
    exact tidy_start source store registry buffer listening
  | perform _ op ih => exact ih.of_perform op
  | line _ line ih => exact ih.answerLine line

/-- **What a line can do to an engine,** whatever it says and whatever state the engine has come to.
The answer is a record with one field, `ok` or `error`, and is given as its text. If there is an
error, whatever the cause, regions, actors and texts are as they were; if there is none, the line is
a query, and spares what it has to. -/
theorem answerLine_harmless (h : e.Reachable) (line : String) :
    let record := (e.answerLine line).1
    let e' := (e.answerLine line).2
    (∃ field value, (field = "ok" ∨ field = "error") ∧ record = .object [(field, value)] ∧
        e.respond line = (record.render, e')) ∧
      (∀ report, record = .object [("error", report)] →
        e'.index = e.index ∧ e'.presence = e.presence ∧ e'.store = e.store) ∧
      ∀ value, record = .object [("ok", value)] →
        ∃ query, decodeText Query.decode line = .ok query ∧ query.Spares e e' := by
  intro record e'
  rcases e.answerLine_cases line with ⟨cause, -, heq⟩ | ⟨query, hquery, heq⟩
  · have hrecord : record = response (.error (.malformed cause)) := congrArg Prod.fst heq
    have hengine : e' = e := congrArg Prod.snd heq
    rw [hrecord, hengine]
    refine ⟨?_, fun _ _ => ⟨rfl, rfl, rfl⟩, fun value hvalue => ?_⟩
    · obtain ⟨field, value, hfield, hresponse⟩ := exists_response (.error (.malformed cause))
      exact ⟨field, value, hfield, hresponse, by rw [respond, heq]⟩
    · obtain ⟨_, hok⟩ := exists_value_of_response hvalue
      cases hok
  · have hharmless := harmless_answer h.tidy.keyed query
    rcases hanswer : e.answer query with ⟨result, e₁⟩
    rw [hanswer] at heq hharmless
    have hrecord : record = response result := congrArg Prod.fst heq
    have hengine : e' = e₁ := congrArg Prod.snd heq
    rw [hrecord, hengine]
    refine ⟨?_, fun report hreport => ?_, fun value hvalue => ⟨query, hquery, ?_⟩⟩
    · obtain ⟨field, value, hfield, hresponse⟩ := exists_response result
      exact ⟨field, value, hfield, hresponse, by rw [respond, heq]⟩
    · obtain ⟨failure, rfl⟩ := exists_failure_of_response hreport
      exact ⟨hharmless.index, hharmless.presence, hharmless.store⟩
    · obtain ⟨value, rfl⟩ := exists_value_of_response hvalue
      exact hharmless

/-- A line that asks how the flags of the hall come about. -/
def hallLine : String := (Value.object [("op", .text "inspect"), ("region", .text "hall")]).render

/-- Whoever asks about the hall gets an answer, and nothing is kept but the bindings of the hall. -/
theorem answerLine_harmless_hall :
    hallEngine.Reachable ∧
      (∃ value, (hallEngine.answerLine hallLine).1 = .object [("ok", value)]) ∧
      (hallEngine.answerLine hallLine).2.presence = hallEngine.presence ∧
      ∀ id, id ≠ ⟨"hall"⟩ →
        (hallEngine.answerLine hallLine).2.cache.get? id = hallEngine.cache.get? id := by
  have hreachable : hallEngine.Reachable := .perform (.start _ _ _ _ _) _
  have hquery : decodeText Query.decode hallLine = .ok (.inspect ⟨"hall"⟩) := by
    have hread : (Value.object [("op", .text "inspect"), ("region", .text "hall")]).ReadsBack 0 :=
      ⟨by decide, trivial, trivial, trivial⟩
    rw [hallLine, decodeText_render hread]
    rfl
  obtain ⟨value, hrecord⟩ :
      ∃ value, (hallEngine.answerLine hallLine).1 = .object [("ok", value)] := by
    rw [answerLine, hquery]
    exact ⟨_, rfl⟩
  obtain ⟨-, -, hspares⟩ := answerLine_harmless hreachable hallLine
  obtain ⟨query, hread, hspared⟩ := hspares value hrecord
  obtain rfl := Except.ok.inj (hquery.symm.trans hread)
  obtain ⟨-, hpresence, -, hkeeps⟩ := hspared
  refine ⟨hreachable, ⟨value, hrecord⟩, hpresence, fun id hid => ?_⟩
  rcases hkeeps id with hsame | ⟨hasked, -⟩
  · exact hsame
  · exact absurd (Option.some.inj hasked).symm hid

end Lines

end Engine

end RegionPolicy
