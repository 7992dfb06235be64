import RegionPolicy.Proofs.Crossing
import RegionPolicy.Proofs.Freshness

/-!
# What is put on record

With the handlers that are there from the start no flag ever allows anything, so only denials go on
record; and a flag that is not about denying is never denied. A look at a flag therefore leaves a
record just if it ends in a denial, and a move just if it is blocked: of all the flags that a move
looks at, only the gate that blocks it is denied.

What is on record names the binding that decided. What is kept about a region may be out of date,
but it never holds more than what bears on the region now, so that binding is still there, in a
region of the lineage.

## Main definitions

* `Denial` — who was denied what, by which flag of which region.
* `Decision.Attests` — a decision on record tells of a denial.
* `Engine.decisionOn` — the decision that goes on record when a flag is looked at.
* `Engine.denials`, `Engine.trail` — the denials of a run, and all that was on record meanwhile.

## Main results

* `Engine.decisionOn_cases` — a look at a flag leaves a record just if the flag is denied.
* `Engine.Tidy.attested_transition` — a move leaves a record just if it is blocked.
* `Engine.Tidy.attested_perform` — what one operation leaves on record.
* `Engine.unheard_perform` — whether anyone listens makes no difference to the answers.
* `Engine.trail_start` — the record of a run tells of its denials, one by one and in their order.
-/

namespace RegionPolicy

/-! ### Flags that go with a gate -/

/-- None of the flags that go with a gate is one that denies when it is off. -/
theorem Gate.not_mem_of_mem_denialFlags (gate : Gate) :
    ∀ key ∈ gate.denialFlags, key ∉ Registry.denyWhenFalseKeys := by
  cases gate <;> decide

theorem Gate.not_mem_of_mem_followUpFlags (gate : Gate) :
    ∀ key ∈ gate.followUpFlags, key ∉ Registry.denyWhenFalseKeys := by
  cases gate <;> decide

namespace BindingGraph

/-- A silent handler rules without a record, whatever the bindings are. -/
theorem evaluate_silent {entry : HandlerEntry} (h : entry.Silent) (g : BindingGraph) (c : Context)
    (key : FlagKey) :
    ∃ verdict, g.evaluate entry c key = .ok ⟨verdict, none⟩ ∧
      ∀ reason, verdict ≠ .denied reason := by
  rw [evaluate]
  split
  · exact ⟨.pass, rfl, fun _ => by simp⟩
  · rw [examine_empty]
    exact h.exists_ruling c _

/-- A flag that denies when it is off passes, or is denied by one of the bindings. -/
theorem evaluate_denyWhenFalse (g : BindingGraph) (c : Context) (key : FlagKey) :
    g.evaluate .denyWhenFalse c key = .ok ⟨.pass, none⟩ ∨
      ∃ b ∈ g.bindings, b.binding.key = key ∧ ∃ reason,
        g.evaluate .denyWhenFalse c key =
          .ok ⟨.denied reason, some (c.decision .deny b reason)⟩ := by
  rw [evaluate]
  split
  · exact .inl rfl
  · rename_i source _
    rw [examine_empty, HandlerEntry.ruling_denyWhenFalse]
    split
    · rename_i b hoff
      have hdispatch := (List.mem_filter.mp (List.mem_of_find?_eq_some hoff)).1
      have hhistory := List.mem_filter.mp (mem_rank.mp hdispatch)
      exact .inr ⟨b, hhistory.1, by simpa using hhistory.2, _, rfl⟩
    · exact .inl rfl

end BindingGraph

/-! ### Denials and what tells of them -/

/-- A denial: who was denied what, by which flag of which region, and why. -/
structure Denial where
  /-- The region. -/
  region : RegionId
  /-- The flag. -/
  flag : FlagKey
  /-- Why it was denied. -/
  reason : Option String
  /-- What was being done. -/
  action : String
  /-- Who did it. -/
  actor : Option ActorId

/-- The denial of a flag in a context. -/
def Context.denial (c : Context) (key : FlagKey) (reason : Option String) : Denial :=
  ⟨c.region.id, key, reason, c.action.id, c.actor.map (·.id)⟩

/-- The denial that a verdict tells of, if it is one. -/
def Context.denial? (c : Context) (key : FlagKey) : Except HandlerError Verdict → Option Denial
  | .ok (.denied reason) => some (c.denial key reason)
  | _ => none

/-- The denial that the decision on a move tells of, if the move is blocked. -/
def TransitionRequest.denial? (request : TransitionRequest) :
    Except HandlerError TransitionDecision → Option Denial
  | .ok (.blocked region flag reason _) =>
    some ⟨region, flag, reason, request.action.id, request.actor.map (·.id)⟩
  | _ => none

/-- A decision on record tells of a denial: it says the same, and the binding that it names is one
of a region in the lineage of the region that denied, with the priority of that region. -/
structure Decision.Attests (d : Decision) (index : RegionIndex) (denial : Denial) : Prop where
  kind : d.kind = .deny
  region : d.region = denial.region
  flag : d.binding.binding.key = denial.flag
  reason : d.reason = denial.reason
  action : d.action = denial.action
  actor : d.actor = denial.actor
  source : ∃ s ∈ index.lineage denial.region,
    d.binding.region = s.id ∧ d.binding.priority = s.priority ∧
      d.binding.binding ∈ s.definition.flags

namespace Engine

variable {δ σ : Type} {e e' : Engine δ σ}

/-! ### Looking at one flag -/

/-- The decision that goes on record when a flag is looked at. -/
def decisionOn (e : Engine δ σ) (c : Context) (key : FlagKey) : Option Decision :=
  match e.registry key with
  | none => none
  | some entry =>
    match (e.bindingsFor c.region).1.evaluate entry c key with
    | .error _ => none
    | .ok ruling => ruling.decision

theorem decisions_record (e : Engine δ σ) (decision : Option Decision) :
    (e.record decision).decisions = e.decisions.publishAll decision.toList := by
  cases decision with
  | none => exact e.decisions.publishAll_nil.symm
  | some decision => rfl

theorem decisions_evaluate (e : Engine δ σ) (c : Context) (key : FlagKey) :
    (e.evaluate c key).2.decisions = e.decisions.publishAll (e.decisionOn c key).toList := by
  obtain ⟨cache, hcache⟩ := bindingsFor_snd e c.region
  cases hentry : e.registry key with
  | none =>
    simp only [evaluate, decisionOn, hentry]
    exact e.decisions.publishAll_nil.symm
  | some entry =>
    simp only [evaluate, decisionOn, hentry, hcache]
    cases (e.bindingsFor c.region).1.evaluate entry c key with
    | error failure => exact e.decisions.publishAll_nil.symm
    | ok ruling => exact decisions_record _ ruling.decision

/-- A flag that is not about denying leaves no record, and is never denied. -/
theorem decisionOn_of_not_mem (hregistry : e.registry = .standard) (c : Context) {key : FlagKey}
    (hkey : key ∉ Registry.denyWhenFalseKeys) :
    e.decisionOn c key = none ∧ ∀ reason, (e.evaluate c key).1 ≠ .ok (.denied reason) := by
  cases hentry : Registry.standard key with
  | none =>
    have hentry' : e.registry key = none := hregistry ▸ hentry
    simp [decisionOn, evaluate, hentry']
  | some entry =>
    have hentry' : e.registry key = some entry := hregistry ▸ hentry
    obtain ⟨verdict, hruling, hverdict⟩ :=
      (e.bindingsFor c.region).1.evaluate_silent (Registry.silent_standard hkey hentry) c key
    rw [evaluate_fst hentry', hruling]
    refine ⟨?_, fun reason h => hverdict reason (Except.ok.inj h)⟩
    simp only [decisionOn, hentry', hruling]

/-- **A look at a flag leaves a record just if the flag is denied,** and then it names one of the
bindings that were found for the region, and the reason of the verdict. -/
theorem decisionOn_cases (hregistry : e.registry = .standard) (c : Context) (key : FlagKey) :
    (e.decisionOn c key = none ∧ ∀ reason, (e.evaluate c key).1 ≠ .ok (.denied reason)) ∨
      ∃ b ∈ (e.bindingsFor c.region).1.bindings, ∃ reason, b.binding.key = key ∧
        (e.evaluate c key).1 = .ok (.denied reason) ∧
          e.decisionOn c key = some (c.decision .deny b reason) := by
  by_cases hkey : key ∈ Registry.denyWhenFalseKeys
  · have hentry : e.registry key = some .denyWhenFalse := hregistry ▸ Registry.standard_of_mem hkey
    rw [evaluate_fst hentry]
    simp only [decisionOn, hentry]
    rcases (e.bindingsFor c.region).1.evaluate_denyWhenFalse c key with
      hpass | ⟨b, hb, hbkey, reason, hdenied⟩
    · rw [hpass]
      exact .inl ⟨rfl, fun reason h => by cases h⟩
    · rw [hdenied]
      exact .inr ⟨b, hb, reason, hbkey, rfl, rfl⟩
  · exact .inl (decisionOn_of_not_mem hregistry c hkey)

theorem decisionOn_eq_none (hregistry : e.registry = .standard) {c : Context} {key : FlagKey}
    (h : ∀ reason, (e.evaluate c key).1 ≠ .ok (.denied reason)) : e.decisionOn c key = none := by
  rcases decisionOn_cases hregistry c key with ⟨hnone, -⟩ | ⟨b, -, reason, -, hdenied, -⟩
  · exact hnone
  · exact absurd hdenied (h reason)

/-- No look at one flag changes what another leaves on record. -/
theorem Looks.decisionOn_eq (h : Looks e e') {c : Context}
    (hc : e.index.get? c.region.id = some c.region) (key : FlagKey) :
    e'.decisionOn c key = e.decisionOn c key := by
  rw [decisionOn, decisionOn, h.registry, h.bindingsFor_fst hc]

/-- What is on record after some flags have been looked at. -/
theorem Looks.decisions_lookAt (h : Looks e e') {looks : List (Context × FlagKey)}
    (hlooks : ∀ look ∈ looks, e.index.get? look.1.region.id = some look.1.region) :
    (e'.lookAt looks).decisions =
      e'.decisions.publishAll (looks.flatMap fun look => (e.decisionOn look.1 look.2).toList) := by
  induction looks generalizing e' with
  | nil => exact e'.decisions.publishAll_nil.symm
  | cons look rest ih =>
    have hlook := hlooks look List.mem_cons_self
    have hlook' : e'.index.get? look.1.region.id = some look.1.region := h.index ▸ hlook
    have hrest := ih (h.trans (looks_evaluate hlook' look.2))
      fun l hl => hlooks l (List.mem_cons_of_mem look hl)
    show ((e'.evaluate look.1 look.2).2.lookAt rest).decisions = _
    rw [hrest, decisions_evaluate, Feed.publishAll_publishAll, h.decisionOn_eq hlook,
      List.flatMap_cons]

/-! ### Records that tell of denials -/

/-- The bindings that are found for a region are bindings of its lineage, even if what is kept is
out of date. -/
theorem Tidy.exists_mem_lineage (h : e.Tidy) {r : Region} (hr : e.index.get? r.id = some r)
    {b : ResolvedBinding} (hb : b ∈ (e.bindingsFor r).1.bindings) :
    ∃ s ∈ e.index.lineage r.id, b ∈ s.ownBindings := by
  have hnow : b ∈ (e.index.bindings r).bindings := by
    rw [bindingsFor] at hb
    split at hb
    · rename_i graph hgraph
      obtain ⟨now, hbearing, hsuffix⟩ := h.kept hgraph
      rw [bearing, hr] at hbearing
      rw [Option.some.inj hbearing]
      exact hsuffix.subset hb
    · exact hb
  rw [RegionIndex.bindings_eq hr] at hnow
  exact List.mem_flatMap.mp hnow

theorem Tidy.attests (h : e.Tidy) {c : Context} (hc : e.index.get? c.region.id = some c.region)
    {b : ResolvedBinding} (hb : b ∈ (e.bindingsFor c.region).1.bindings) {key : FlagKey}
    (hkey : b.binding.key = key) (reason : Option String) :
    (c.decision .deny b reason).Attests e.index (c.denial key reason) where
  kind := rfl
  region := rfl
  flag := hkey
  reason := rfl
  action := rfl
  actor := rfl
  source := by
    obtain ⟨s, hs, hown⟩ := h.exists_mem_lineage hc hb
    obtain ⟨flag, hflag, rfl⟩ := List.mem_map.mp hown
    exact ⟨s, hs, rfl, rfl, hflag⟩

/-- What goes on record tells of some denials, one by one and in their order. -/
def Attested (e : Engine δ σ) (denials : List Denial) (feed : Feed Decision) : Prop :=
  ∃ decisions, feed = e.decisions.publishAll decisions ∧
    List.Forall₂ (fun denial d => Decision.Attests d e.index denial) denials decisions

theorem attested_nil {feed : Feed Decision} (h : feed = e.decisions) : e.Attested [] feed :=
  ⟨[], by rw [h, Feed.publishAll_nil], .nil⟩

theorem Tidy.attested_of_mem (h : e.Tidy) {c : Context}
    (hc : e.index.get? c.region.id = some c.region) {b : ResolvedBinding}
    (hb : b ∈ (e.bindingsFor c.region).1.bindings) (reason : Option String) :
    e.Attested [c.denial b.binding.key reason]
      (e.decisions.publishAll [c.decision .deny b reason]) :=
  ⟨_, rfl, .cons (h.attests hc hb rfl reason) .nil⟩

/-- What one look leaves on record tells of the verdict. -/
theorem Tidy.attested_evaluate (h : e.Tidy) (hregistry : e.registry = .standard) {c : Context}
    (hc : e.index.get? c.region.id = some c.region) (key : FlagKey) :
    e.Attested (c.denial? key (e.evaluate c key).1).toList (e.evaluate c key).2.decisions := by
  rw [decisions_evaluate]
  rcases decisionOn_cases hregistry c key with
    ⟨hnone, hnot⟩ | ⟨b, hb, reason, rfl, hdenied, hrecord⟩
  · have hdenial : c.denial? key (e.evaluate c key).1 = none := by
      unfold Context.denial?
      split
      · rename_i reason hdenied
        exact absurd hdenied (hnot reason)
      · rfl
    rw [hnone, hdenial]
    exact attested_nil (Feed.publishAll_nil _)
  · rw [hdenied, hrecord]
    exact h.attested_of_mem hc hb reason

/-! ### Moves -/

section Moves

variable {request : TransitionRequest} {gate : Gate} {r : Region}

/-- Of the flags that are looked at for a gate only the gate itself can leave a record, and only if
whoever moves is a stranger to the region. -/
theorem flatMap_decisionOn_looks (hregistry : e.registry = .standard) {keys : List FlagKey}
    (hkeys : ∀ key ∈ keys, key ∉ Registry.denyWhenFalseKeys) :
    ((gate.looks request r keys).flatMap fun look => (e.decisionOn look.1 look.2).toList) =
      if request.actor.any r.belongsTo then []
      else (e.decisionOn (gate.context request r) gate.flag).toList := by
  have hquiet : ((keys.map fun key => (gate.context request r, key)).flatMap
      fun look => (e.decisionOn look.1 look.2).toList) = [] := by
    rw [List.flatMap_map, List.flatMap_eq_nil_iff]
    intro key hkey
    rw [(decisionOn_of_not_mem hregistry _ (hkeys key hkey)).1]
    rfl
  rw [Gate.looks]
  split
  · exact hquiet
  · rw [List.map_cons, List.flatMap_cons, hquiet, List.append_nil]

/-- A gate that opens leaves no record. -/
theorem Looks.decisions_looksThrough (h : Looks e e') (hregistry : e.registry = .standard)
    (hkeyed : e.index.Keyed Region.id) (hopens : e.Opens request gate) :
    (e'.lookAt (e.looksThrough request gate)).decisions = e'.decisions := by
  rw [looksThrough]
  cases hregion : e.index.dominantAt (gate.position request) with
  | none => rfl
  | some r =>
    have hr : e.index.get? r.id = some r := RegionIndex.get?_of_dominantAt hkeyed hregion
    have hlooks : ∀ look ∈ gate.looks request r gate.followUpFlags,
        e.index.get? look.1.region.id = some look.1.region := by
      intro look hlook
      obtain ⟨key, -, rfl⟩ := List.mem_map.mp hlook
      exact hr
    rw [Option.toList_some, List.flatMap_singleton, h.decisions_lookAt hlooks,
      flatMap_decisionOn_looks hregistry gate.not_mem_of_mem_followUpFlags]
    split
    · exact Feed.publishAll_nil _
    · rename_i hstranger
      have hopen : ∀ reason,
          (e.evaluate (gate.context request r) gate.flag).1 ≠ .ok (.denied reason) :=
        fun reason hdenied => (hopens r hregion).2 reason ⟨by simpa using hstranger, hdenied⟩
      rw [decisionOn_eq_none hregistry hopen]
      exact Feed.publishAll_nil _

/-- A gate that is refused leaves a record of its denial. -/
theorem Looks.attested_looks (h : Looks e e') (hsame : e'.decisions = e.decisions)
    (hregistry : e.registry = .standard) (htidy : e.Tidy) (hr : e.index.get? r.id = some r)
    {reason : Option String} (hrefuses : e.Refuses request gate r reason) :
    e.Attested [(gate.context request r).denial gate.flag reason]
      (e'.lookAt (gate.looks request r gate.denialFlags)).decisions := by
  obtain ⟨hstranger, hdenied⟩ := hrefuses
  have hlooks : ∀ look ∈ gate.looks request r gate.denialFlags,
      e.index.get? look.1.region.id = some look.1.region := by
    intro look hlook
    obtain ⟨key, -, rfl⟩ := List.mem_map.mp hlook
    exact hr
  rw [h.decisions_lookAt hlooks, hsame,
    flatMap_decisionOn_looks hregistry gate.not_mem_of_mem_denialFlags, hstranger]
  rcases decisionOn_cases hregistry (gate.context request r) gate.flag with
    ⟨-, hnot⟩ | ⟨b, hb, reason', hkey, hdenied', hrecord⟩
  · exact absurd hdenied (hnot reason)
  · obtain rfl : reason = reason' :=
      Verdict.denied.inj (Except.ok.inj (hdenied.symm.trans hdenied'))
    rw [hrecord, ← hkey]
    exact htidy.attested_of_mem (c := gate.context request r) hr hb reason

/-- To let a move pass leaves no record. -/
theorem attested_allow (h : e'.decisions = e.decisions) (entered exited : Option RegionId)
    (effects : List TransitionEffect) :
    e.Attested (request.denial? (.ok (e'.allow request entered exited effects).1)).toList
      (e'.allow request entered exited effects).2.decisions := by
  rw [allow]
  cases request.actor <;> exact attested_nil h

/-- **A move leaves a record just if it is blocked,** and then it tells of the denial at the gate
that blocked it. -/
theorem Tidy.attested_transition (htidy : e.Tidy) (hregistry : e.registry = .standard)
    (request : TransitionRequest) :
    e.Attested (request.denial? (e.transition request).1).toList
      (e.transition request).2.decisions := by
  have hstandard : ∀ r, e.registry.StandardFor r :=
    fun r => hregistry ▸ Registry.standardFor_standard r
  by_cases hsame : (e.index.dominantAt request.origin).map Region.id =
      (e.index.dominantAt request.destination).map Region.id
  · rw [transition_within hsame]
    exact attested_allow rfl none none []
  by_cases hentry : ∃ n reason, e.index.dominantAt request.destination = some n ∧
      e.Refuses request .entry n reason
  · obtain ⟨n, reason, hn, hrefuses⟩ := hentry
    rw [transition_of_entry_refused htidy.keyed hsame hn (hstandard n) hrefuses]
    exact (Looks.refl e).attested_looks rfl hregistry htidy
      (RegionIndex.get?_of_dominantAt htidy.keyed hn) hrefuses
  have hentered : e.Opens request .entry :=
    fun r hr => ⟨hstandard r, fun reason hrefuses => hentry ⟨r, reason, hr, hrefuses⟩⟩
  have hlooks := ((Looks.refl e).passGate_of_opens htidy.keyed hentered).1
  have hquiet := (Looks.refl e).decisions_looksThrough hregistry htidy.keyed hentered
  by_cases hexit : ∃ p reason, e.index.dominantAt request.origin = some p ∧
      e.Refuses request .exit p reason
  · obtain ⟨p, reason, hp, hrefuses⟩ := hexit
    rw [transition_of_exit_refused htidy.keyed hsame hentered hp (hstandard p) hrefuses]
    exact hlooks.attested_looks hquiet hregistry htidy
      (RegionIndex.get?_of_dominantAt htidy.keyed hp) hrefuses
  have hleft : e.Opens request .exit :=
    fun r hr => ⟨hstandard r, fun reason hrefuses => hexit ⟨r, reason, hr, hrefuses⟩⟩
  rw [transition_of_opens htidy.keyed hsame hentered hleft]
  refine attested_allow ?_ _ _ _
  rw [hlooks.decisions_looksThrough hregistry htidy.keyed hleft, hquiet]

end Moves

end Engine

/-! ### Operations -/

namespace Operation

variable {δ σ : Type}

/-- The denial that the answer to an operation reports. -/
def denial? : Operation δ σ → Answer → Option Denial
  | .evaluate id c key, .verdict (.ok (.denied reason)) =>
    some ⟨id, key, reason, c.action.id, c.actor.map (·.id)⟩
  | .transition request, .decision result => request.denial? result
  | _, _ => none

/-- A look at a flag of a region reports what its verdict tells of. -/
theorem denial?_evaluate (c : Context) (r : Region) (key : FlagKey)
    (result : Except HandlerError Verdict) :
    (Operation.evaluate r.id c key : Operation δ σ).denial? (.verdict result) =
      (c.forRegion r).denial? key result := by
  rcases result with failure | verdict
  · rfl
  · cases verdict <;> rfl

/-- An operation does not bring in other handlers than the standard ones. -/
def KeepsStandard : Operation δ σ → Prop
  | .setRegistry registry => registry = .standard
  | _ => True

/-- The decisions that are taken from a feed by an operation. -/
def taken (feed : Feed Decision) : Operation δ σ → List Decision
  | .drainFeeds => feed.sent
  | _ => []

end Operation

namespace Engine

section Perform

variable {δ σ : Type} [DefinitionSource δ] [ArtifactStore σ] {e : Engine δ σ} {op : Operation δ σ}

/-- **What one operation leaves on record** tells of the denial that its answer reports, if it
reports one. The handlers stay the standard ones. -/
theorem Tidy.attested_perform (htidy : e.Tidy) (hregistry : e.registry = .standard)
    (hop : op.KeepsStandard) (hdrain : op ≠ .drainFeeds) :
    e.Attested (op.denial? (e.perform op).1).toList (e.perform op).2.decisions ∧
      (e.perform op).2.registry = .standard := by
  cases op with
  | setSource | setStore | forget | invalidate | invalidateAll =>
    exact ⟨attested_nil rfl, hregistry⟩
  | setRegistry registry => exact ⟨attested_nil rfl, hop⟩
  | drainFeeds => exact absurd rfl hdrain
  | reload =>
    cases hload : DefinitionSource.load e.source with
    | error failure =>
      rw [perform, reload_eq_error hload]
      exact ⟨attested_nil rfl, hregistry⟩
    | ok definitions =>
      rw [perform, reload_eq hload]
      exact ⟨attested_nil rfl, hregistry⟩
  | commitRegion definition shape nodes mode =>
    obtain ⟨store, ⟨failure, hfailed⟩ | hdone⟩ := e.commitRegion_cases definition shape nodes mode
    · rw [perform, hfailed]
      exact ⟨attested_nil rfl, hregistry⟩
    · rw [perform, hdone]
      exact ⟨attested_nil rfl, hregistry⟩
  | commitArtifact a shape nodes mode =>
    obtain ⟨store, ⟨failure, hfailed⟩ | hdone⟩ := e.commitArtifact_cases a shape nodes mode
    · rw [perform, hfailed]
      exact ⟨attested_nil rfl, hregistry⟩
    · obtain ⟨cache, changes, hforget⟩ := foldl_invalidate_eq
        { e with store, index := e.index.replaceShapes a.id shape } (e.index.usersOf a.id)
      rw [perform, hdone, hforget]
      exact ⟨attested_nil rfl, hregistry⟩
  | evaluate target c key =>
    rw [perform, ask]
    cases hr : e.index.get? target with
    | none => exact ⟨attested_nil rfl, hregistry⟩
    | some r =>
      obtain rfl := htidy.keyed target r hr
      have hattested := htidy.attested_evaluate hregistry (c := c.forRegion r) hr key
      have hlooks := looks_evaluate (c := c.forRegion r) hr key
      rw [← Operation.denial?_evaluate (δ := δ) (σ := σ)] at hattested
      exact ⟨hattested, hlooks.registry.trans hregistry⟩
  | effective target key =>
    rw [perform, ask]
    cases hr : e.index.get? target with
    | none => exact ⟨attested_nil rfl, hregistry⟩
    | some r =>
      obtain ⟨cache, hcache⟩ := bindingsFor_snd e r
      simp only [effective, hcache]
      exact ⟨attested_nil rfl, hregistry⟩
  | inspect target =>
    rw [perform, ask]
    cases hr : e.index.get? target with
    | none => exact ⟨attested_nil rfl, hregistry⟩
    | some r =>
      obtain ⟨cache, hcache⟩ := bindingsFor_snd e r
      simp only [inspect, hcache]
      exact ⟨attested_nil rfl, hregistry⟩
  | transition request =>
    exact ⟨htidy.attested_transition hregistry request,
      (looks_transition htidy.keyed request).registry.trans hregistry⟩

end Perform

/-! ### Listening or not -/

section Unheard

variable {δ σ : Type} {e e' : Engine δ σ}

/-- Engines that differ at most in what is on record and in whether anyone listens. -/
def Unheard (e e' : Engine δ σ) : Prop := ∃ feed, e' = { e with decisions := feed }

/-- No look at a flag tells such engines apart. -/
theorem congruence_unheard : Congruence (Unheard (δ := δ) (σ := σ)) where
  index_eq := by
    rintro e e' ⟨feed, rfl⟩
    rfl
  registry_eq := by
    rintro e e' ⟨feed, rfl⟩
    rfl
  bindingsFor := by
    rintro e e' ⟨feed, rfl⟩ r -
    rw [bindingsFor, bindingsFor]
    cases e.cache.get? r.id with
    | none => exact ⟨rfl, feed, rfl⟩
    | some graph => exact ⟨rfl, feed, rfl⟩
  record := by
    rintro e e' ⟨feed, rfl⟩ decision
    cases decision with
    | none => exact ⟨feed, rfl⟩
    | some decision => exact ⟨feed.publish decision, rfl⟩

theorem unheard_allow (h : Unheard e e') (request : TransitionRequest)
    (entered exited : Option RegionId) (effects : List TransitionEffect) :
    Agree Unheard (e.allow request entered exited effects)
      (e'.allow request entered exited effects) := by
  obtain ⟨feed, rfl⟩ := h
  rw [allow, allow]
  cases request.actor with
  | none => exact ⟨rfl, feed, rfl⟩
  | some actor => exact ⟨rfl, feed, rfl⟩

theorem unheard_foldl_invalidate (h : Unheard e e') (ids : List RegionId) :
    Unheard (ids.foldl invalidate e) (ids.foldl invalidate e') := by
  induction ids generalizing e e' with
  | nil => exact h
  | cons id rest ih =>
    obtain ⟨feed, rfl⟩ := h
    exact ih ⟨feed, rfl⟩

variable [DefinitionSource δ] [ArtifactStore σ]

/-- **Whether anyone listens makes no difference to the answers,** nor to what is left behind but
for the record. -/
theorem unheard_perform (hkeyed : e.index.Keyed Region.id) (h : Unheard e e')
    (op : Operation δ σ) : Agree Unheard (e.perform op) (e'.perform op) := by
  cases op with
  | setSource | setStore | setRegistry | forget | invalidate | invalidateAll =>
    obtain ⟨feed, rfl⟩ := h
    exact ⟨rfl, feed, rfl⟩
  | drainFeeds =>
    obtain ⟨feed, rfl⟩ := h
    exact ⟨rfl, feed.drain, rfl⟩
  | reload =>
    obtain ⟨feed, rfl⟩ := h
    rw [perform, perform, reload, reload]
    cases DefinitionSource.load e.source with
    | error failure => exact ⟨rfl, feed, rfl⟩
    | ok definitions => exact ⟨rfl, feed, rfl⟩
  | commitRegion definition shape nodes mode =>
    obtain ⟨feed, rfl⟩ := h
    simp only [perform, commitRegion]
    split <;> exact ⟨rfl, feed, rfl⟩
  | commitArtifact a shape nodes mode =>
    obtain ⟨feed, rfl⟩ := h
    simp only [perform, commitArtifact]
    split
    · exact ⟨rfl, feed, rfl⟩
    · exact ⟨rfl, unheard_foldl_invalidate ⟨feed, rfl⟩ _⟩
  | evaluate target c key => exact congruence_unheard.perform_evaluate h hkeyed target c key
  | effective target key => exact congruence_unheard.perform_effective h hkeyed target key
  | inspect target => exact congruence_unheard.perform_inspect h hkeyed target
  | transition request =>
    have hmove := congruence_unheard.transition hkeyed h request
      fun h entered exited effects => unheard_allow h request entered exited effects
    exact hmove.map _

end Unheard

/-! ### Runs -/

section Runs

variable {δ σ : Type} [DefinitionSource δ] [ArtifactStore σ] {e e' : Engine δ σ}

/-- The denials that the answers in a run report, each with the regions in force at that time. -/
def denials (e : Engine δ σ) : List (Operation δ σ) → List (RegionIndex × Denial)
  | [] => []
  | op :: rest =>
    (op.denial? (e.perform op).1).toList.map (e.index, ·) ++ (e.perform op).2.denials rest

/-- All that was on record in the course of a run: what was taken from the feed, and what is still
there. -/
def trail (e : Engine δ σ) : List (Operation δ σ) → List Decision
  | [] => e.decisions.sent
  | op :: rest => op.taken e.decisions ++ (e.perform op).2.trail rest

/-- **What one operation adds to a trail** are decisions that tell of the denial that its answer
reports. -/
theorem Tidy.exists_added (htidy : e.Tidy) (hregistry : e.registry = .standard)
    (hlistening : e.decisions.listening = true) {op : Operation δ σ} (hop : op.KeepsStandard) :
    ∃ added, op.taken e.decisions ++ (e.perform op).2.decisions.sent = e.decisions.sent ++ added ∧
      List.Forall₂ (fun denial d => Decision.Attests d e.index denial)
        (op.denial? (e.perform op).1).toList added ∧
      (e.perform op).2.decisions.listening = true ∧ (e.perform op).2.registry = .standard := by
  by_cases hdrain : op = .drainFeeds
  · subst hdrain
    exact ⟨[], rfl, .nil, hlistening, hregistry⟩
  · obtain ⟨⟨added, hfeed, hattests⟩, hregistry'⟩ :=
      htidy.attested_perform hregistry hop hdrain
    have htaken : op.taken e.decisions = [] := by
      unfold Operation.taken
      split
      · exact absurd rfl hdrain
      · rfl
    rw [Feed.publishAll, if_pos hlistening] at hfeed
    rw [htaken, hfeed]
    exact ⟨added, rfl, hattests, hlistening, hregistry'⟩

/-- **What a run adds to a trail** are decisions that tell of the denials of the run, one by one and
in their order. The induction is on the run, the engine being arbitrary. -/
theorem Tidy.exists_trail (htidy : e.Tidy) (hregistry : e.registry = .standard)
    (hlistening : e.decisions.listening = true) {ops : List (Operation δ σ)}
    (hops : ∀ op ∈ ops, op.KeepsStandard) :
    ∃ added, e.trail ops = e.decisions.sent ++ added ∧
      List.Forall₂ (fun entry d => Decision.Attests d entry.1 entry.2) (e.denials ops) added := by
  induction ops generalizing e with
  | nil => exact ⟨[], (List.append_nil _).symm, .nil⟩
  | cons op rest ih =>
    obtain ⟨added, hadded, hattests, hlistening', hregistry'⟩ :=
      htidy.exists_added hregistry hlistening (hops op List.mem_cons_self)
    obtain ⟨more, hmore, hrest⟩ :=
      ih (htidy.of_perform op) hregistry' hlistening' fun op hop =>
        hops op (List.mem_cons_of_mem _ hop)
    refine ⟨added ++ more, ?_, ?_⟩
    · rw [trail, hmore, ← List.append_assoc, hadded, List.append_assoc]
    · exact List.rel_append (List.forall₂_map_left_iff.mpr hattests) hrest

/-- Whatever becomes of the feed, a run goes on as it would have. -/
theorem Tidy.transcript_eq (htidy : e.Tidy) (h : Unheard e e') (ops : List (Operation δ σ)) :
    e'.transcript ops = e.transcript ops ∧ Unheard (e.after ops) (e'.after ops) := by
  induction ops generalizing e e' with
  | nil => exact ⟨rfl, h⟩
  | cons op rest ih =>
    obtain ⟨hanswer, hleft⟩ := unheard_perform htidy.keyed h op
    obtain ⟨htranscript, hafter⟩ := ih (htidy.of_perform op) hleft
    refine ⟨?_, hafter⟩
    rw [transcript, transcript, hanswer, htranscript]

/-- **The record of a run tells of its denials, one by one and in their order.** With the standard
handlers the decisions that are on record in the course of a run belong, one to one, to the looks at
a flag that ended in a denial and the moves that were blocked; each says what was denied to whom, by
which flag of which region, and why, and names a binding of the lineage of that region. Nothing else
leaves a record. And whatever becomes of the feed at any time, nobody listening included, all
answers are the same, and so is what the run leaves behind but for the record. -/
theorem trail_start (source : δ) (store : σ) (buffer : Nat) {ops : List (Operation δ σ)}
    (hops : ∀ op ∈ ops, op.KeepsStandard) :
    let e₀ := start source store .standard buffer true
    List.Forall₂ (fun entry d => Decision.Attests d entry.1 entry.2) (e₀.denials ops)
        (e₀.trail ops) ∧
      ∀ feed more,
        { e₀.after ops with decisions := feed }.transcript more = (e₀.after ops).transcript more ∧
          Unheard ((e₀.after ops).after more)
            ({ e₀.after ops with decisions := feed }.after more) := by
  intro e₀
  have htidy : e₀.Tidy := tidy_start source store .standard buffer true
  obtain ⟨added, htrail, hattests⟩ := htidy.exists_trail rfl rfl hops
  exact ⟨htrail ▸ hattests, fun feed more => (htidy.after ops).transcript_eq ⟨feed, rfl⟩ more⟩

end Runs

/-! ### A yard that nobody may leave -/

section Yard

/-- An engine that nothing was loaded into. -/
def yardEngine : Engine MemorySource MemoryStore := start {} {} .standard 16 true

/-- The yard comes into force, and then someone asks whether it can be left. -/
def askingYard : List (Operation MemorySource MemoryStore) :=
  [.commitRegion yard.definition yard.shape [] none,
    .evaluate yard.id { region := yard, action := .unknown } .exit]

/-- The engine with the yard in force. -/
def yarded : Engine MemorySource MemoryStore :=
  (yardEngine.perform (.commitRegion yard.definition yard.shape [] none)).2

theorem get?_yarded : yarded.index.get? yard.id = some yard := rfl

theorem evaluate_yarded :
    (yarded.evaluate { region := yard, action := .unknown } .exit).1 =
      .ok (.deny "exit.denied") := by
  have htidy : yarded.Tidy := Tidy.of_perform (tidy_start ..) _
  have hfresh : yarded.Fresh yard := by
    intro graph hgraph
    have hnone : yarded.cache.get? yard.id = none := by
      refine (get?_cache_invalidate _ _ _).trans ?_
      exact ite_self none
    cases hnone.symm.trans hgraph
  have hsupplier : yarded.index.supplier? yard .exit = some yard :=
    RegionIndex.supplier?_of_binds get?_yarded (by decide)
  rw [evaluate_denyWhenFalse (c := { region := yard, action := .unknown }) htidy.keyed get?_yarded
    hfresh rfl (by decide)]
  show Except.ok (if (yarded.index.supplier? yard .exit).any _ then _ else _) = _
  rw [hsupplier]
  rfl

theorem denials_yard :
    yardEngine.denials askingYard =
      [(yarded.index, ⟨yard.id, .exit, some "exit.denied", FlagAction.unknown.id, none⟩)] := by
  have hask : (yarded.perform (.evaluate yard.id { region := yard, action := .unknown } .exit)).1 =
      .verdict (.ok (.deny "exit.denied")) := by
    rw [perform, ask, get?_yarded, ← evaluate_yarded]
    rfl
  show [] ++ ((Operation.denial? (.evaluate yard.id { region := yard, action := .unknown } .exit)
    (yarded.perform (.evaluate yard.id { region := yard, action := .unknown } .exit)).1).toList.map
      (yarded.index, ·) ++ []) = _
  rw [hask]
  rfl

theorem trail_start_yard :
    (∀ op ∈ askingYard, op.KeepsStandard) ∧
      ∃ d, yardEngine.trail askingYard = [d] ∧ d.kind = .deny ∧ d.region = yard.id ∧
        d.binding.binding.key = .exit ∧ d.reason = some "exit.denied" := by
  have hops : ∀ op ∈ askingYard, op.KeepsStandard := by
    simp only [askingYard, List.forall_mem_cons]
    exact ⟨trivial, trivial, fun _ h => nomatch h⟩
  obtain ⟨htrail, -⟩ := trail_start (δ := MemorySource) (σ := MemoryStore) {} {} 16 hops
  rw [← yardEngine, denials_yard] at htrail
  obtain ⟨d, rest, hattests, hrest, hd⟩ := List.forall₂_cons_left_iff.mp htrail
  rw [List.forall₂_nil_left_iff.mp hrest] at hd
  exact ⟨hops, d, hd, hattests.kind, hattests.region, hattests.flag, hattests.reason⟩

end Yard

end Engine

end RegionPolicy
