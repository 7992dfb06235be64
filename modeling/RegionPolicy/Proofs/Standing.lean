import RegionPolicy.Proofs.Crossing
import RegionPolicy.Proofs.Freshness
import RegionPolicy.Store.Memory

/-!
# Who moves

A move says who makes it, and what it is part of, and both are handed on to every handler. The
standard handlers look at neither: what they make of a binding is in the binding. So there is one
thing about whoever moves that a decision can show, and that is whether they belong to the regions
at the two ends of the move.

This is said by a decision that is made without being told who moves. It is told where the move
begins and ends, and at which of the two gates whoever moves belongs to the region; every move comes
to that decision, but for what it says of presence. There belonging to a region can only take
barriers away: whoever is let through is let through in the same way as someone who belongs to both
regions.

What is kept may be out of date. Two moves that are asked of one engine find the same bindings.

## Main definitions

* `HandlerEntry.Impersonal` — a handler that looks at bindings only.
* `Engine.standing` — whether whoever moves belongs to the region of a gate.
* `Engine.outcome` — the decision on a move, whoever makes it.
* `TransitionDecision.withoutPresence` — a decision but for what it says of presence.

## Main results

* `Registry.impersonal_standard` — the standard handlers look at bindings only.
* `Engine.exists_transition` — every move comes to its outcome.
* `Engine.outcome_of_not_isBlocked`, `Engine.isBlocked_outcome_mono` — what belonging does.
* `Engine.transition_alike` — two moves between the same points.
-/

namespace RegionPolicy

/-! ### Handlers that look at bindings only -/

/-- A handler looks at bindings only: it makes the same of a binding in any context. -/
def HandlerEntry.Impersonal (entry : HandlerEntry) : Prop :=
  ∀ c c' b, entry.handler c b = entry.handler c' b

/-- **The standard handlers look at bindings only.** -/
theorem Registry.impersonal_standard {key : FlagKey} {entry : HandlerEntry}
    (h : standard key = some entry) : entry.Impersonal := by
  intro c c' b
  unfold standard at h
  split at h
  case h_9 =>
    split at h
    · exact Option.some.inj h ▸ rfl
    · cases h
  all_goals exact Option.some.inj h ▸ rfl

/-- The verdict that bindings come to does not depend on the context then; the record does. -/
theorem HandlerEntry.Impersonal.map_verdict_examine {entry : HandlerEntry} (h : entry.Impersonal)
    (c c' : Context) (f : Findings) (bindings : List ResolvedBinding) :
    (examine entry c f bindings).map Ruling.verdict =
      (examine entry c' f bindings).map Ruling.verdict := by
  induction bindings generalizing f with
  | nil =>
    simp only [examine, Except.map, Findings.ruling]
    split
    · cases f.allowedBy <;> rfl
    · rfl
  | cons b rest ih =>
    simp only [examine, h c c' b]
    split
    · cases entry.handler c' b with
      | error failure => rfl
      | ok verdict =>
        cases verdict with
        | denied reason => rfl
        | modify metadata => exact ih _
        | allow => exact ih _
        | pass => exact ih _
    · exact ih f

/-! ### Decisions without presence -/

namespace TransitionDecision

/-- A decision but for what it says of presence. -/
def withoutPresence : TransitionDecision → TransitionDecision
  | allowed entered exited effects _ => allowed entered exited effects {}
  | blocked region flag reason effects => blocked region flag reason effects

@[simp] theorem isBlocked_withoutPresence (d : TransitionDecision) :
    d.withoutPresence.isBlocked = d.isBlocked := by
  cases d <;> rfl

end TransitionDecision

/-- A context that tells nothing but the region. -/
def Context.anonymous (r : Region) : Context := { region := r, action := .unknown }

namespace Engine

variable {δ σ : Type} {e : Engine δ σ}

/-! ### Verdicts -/

/-- **With the standard handlers a flag comes to the same for everyone,** whatever they do. -/
theorem evaluate_congr_region (hregistry : e.registry = .standard) {c c' : Context}
    (hregion : c.region = c'.region) (key : FlagKey) :
    (e.evaluate c key).1 = (e.evaluate c' key).1 := by
  cases hentry : e.registry key with
  | none => simp only [evaluate, hentry]
  | some entry =>
    have himpersonal : entry.Impersonal := Registry.impersonal_standard (hregistry ▸ hentry)
    rw [evaluate_fst hentry, evaluate_fst hentry, hregion, BindingGraph.evaluate,
      BindingGraph.evaluate, hregion]
    split
    · rfl
    · exact himpersonal.map_verdict_examine c c' {} _

theorem effectsOf_congr_region (hregistry : e.registry = .standard) {c c' : Context}
    (hregion : c.region = c'.region) (keys : List FlagKey) :
    e.effectsOf c keys = e.effectsOf c' keys := by
  rw [effectsOf, effectsOf]
  refine List.flatMap_congr fun key _ => ?_
  rw [evaluate_congr_region hregistry hregion, hregion]

/-! ### Outcomes -/

/-- Whether whoever moves belongs to the region that counts at a gate. -/
def standing (e : Engine δ σ) (request : TransitionRequest) (gate : Gate) : Bool :=
  (e.index.dominantAt (gate.position request)).any fun r => request.actor.any r.belongsTo

/-- The decision that stops strangers at a gate of a region, if its flag is denied. -/
def barrier? (e : Engine δ σ) (gate : Gate) (r : Region) : Option TransitionDecision :=
  match (e.evaluate (.anonymous r) gate.flag).1 with
  | .ok (.denied reason) =>
    some (.blocked r.id gate.flag reason (e.effectsOf (.anonymous r) gate.denialFlags))
  | _ => none

/-- The decision that stops a move at a gate that stands at a point, if there is one. Who belongs to
the region there is not stopped. -/
def stop? (e : Engine δ σ) (gate : Gate) (p : Position) (belongs : Bool) :
    Option TransitionDecision :=
  if belongs then none else (e.index.dominantAt p).bind (e.barrier? gate)

/-- What is to be done at an open gate that stands at a point. -/
def welcome (e : Engine δ σ) (gate : Gate) (p : Position) : List TransitionEffect :=
  (e.index.dominantAt p).toList.flatMap fun r => e.effectsOf (.anonymous r) gate.followUpFlags

/-- The decision on a move from one point to another, but for what it says of presence. It is told
at which gates whoever moves belongs to the region, and nothing else about them. -/
def outcome (e : Engine δ σ) (origin destination : Position) (standing : Gate → Bool) :
    TransitionDecision :=
  let previous := (e.index.dominantAt origin).map Region.id
  let next := (e.index.dominantAt destination).map Region.id
  if previous = next then .allowed none none [] {}
  else
    ((e.stop? .entry destination (standing .entry)).or
      (e.stop? .exit origin (standing .exit))).getD
        (.allowed next previous (e.welcome .entry destination ++ e.welcome .exit origin) {})

section Outcomes

variable {request : TransitionRequest} {gate : Gate} {r : Region}

theorem withoutPresence_allow (e : Engine δ σ) (request : TransitionRequest)
    (entered exited : Option RegionId) (effects : List TransitionEffect) :
    (e.allow request entered exited effects).1.withoutPresence =
      .allowed entered exited effects {} := by
  rw [allow]
  split <;> rfl

theorem standing_of_dominantAt (hr : e.index.dominantAt (gate.position request) = some r) :
    e.standing request gate = request.actor.any r.belongsTo := by
  rw [standing, hr, Option.any_some]

/-- A gate stops a move that its region refuses, and no other. -/
theorem stop?_eq_some (gate : Gate) (hregistry : e.registry = .standard)
    {decision : TransitionDecision}
    (h : e.stop? gate (gate.position request) (e.standing request gate) = some decision) :
    ∃ r reason, e.index.dominantAt (gate.position request) = some r ∧
      e.Refuses request gate r reason ∧
      decision = .blocked r.id gate.flag reason
        (e.effectsOf (gate.context request r) gate.denialFlags) := by
  rw [stop?] at h
  split at h
  · cases h
  · rename_i hstranger
    obtain ⟨r, hr, hbarrier⟩ := Option.bind_eq_some_iff.mp h
    rw [standing_of_dominantAt hr, Bool.not_eq_true] at hstranger
    rw [barrier?] at hbarrier
    split at hbarrier
    · rename_i reason hdenied
      have hregion : (gate.context request r).region = (Context.anonymous r).region := rfl
      refine ⟨r, reason, hr, ⟨hstranger, ?_⟩, ?_⟩
      · rw [evaluate_congr_region hregistry hregion, hdenied]
      · rw [effectsOf_congr_region hregistry hregion]
        exact (Option.some.inj hbarrier).symm
    · cases hbarrier

theorem stop?_eq_none (gate : Gate) (hregistry : e.registry = .standard)
    (h : e.stop? gate (gate.position request) (e.standing request gate) = none) :
    e.Opens request gate := by
  intro r hr
  have hregion : (gate.context request r).region = (Context.anonymous r).region := rfl
  refine ⟨hregistry ▸ Registry.standardFor_standard r, fun reason ⟨hstranger, hdenied⟩ => ?_⟩
  rw [evaluate_congr_region hregistry hregion] at hdenied
  rw [stop?, standing_of_dominantAt hr, if_neg (by simp [hstranger]), hr, Option.bind_some,
    barrier?, hdenied] at h
  cases h

theorem effectsThrough_eq_welcome (hregistry : e.registry = .standard)
    (request : TransitionRequest) (gate : Gate) :
    e.effectsThrough request gate = e.welcome gate (gate.position request) := by
  rw [effectsThrough, welcome]
  refine List.flatMap_congr fun r _ => ?_
  have hregion : (gate.context request r).region = (Context.anonymous r).region := rfl
  exact effectsOf_congr_region hregistry hregion gate.followUpFlags

end Outcomes

/-- **Every move comes to its outcome,** but for what it says of presence. -/
theorem exists_transition (hkeyed : e.index.Keyed Region.id) (hregistry : e.registry = .standard)
    (request : TransitionRequest) :
    ∃ decision, (e.transition request).1 = .ok decision ∧ decision.withoutPresence =
      e.outcome request.origin request.destination (e.standing request) := by
  have hstandard : ∀ r, e.registry.StandardFor r :=
    fun r => hregistry ▸ Registry.standardFor_standard r
  rw [outcome]
  split
  · rename_i hsame
    rw [transition_within hsame]
    exact ⟨_, rfl, withoutPresence_allow ..⟩
  · rename_i hdiffers
    cases hentry : e.stop? .entry request.destination (e.standing request .entry) with
    | some decision =>
      obtain ⟨n, reason, hn, hrefuses, rfl⟩ := stop?_eq_some .entry hregistry hentry
      rw [transition_of_entry_refused hkeyed hdiffers hn (hstandard n) hrefuses]
      exact ⟨_, rfl, rfl⟩
    | none =>
      have hopens := stop?_eq_none .entry hregistry hentry
      cases hexit : e.stop? .exit request.origin (e.standing request .exit) with
      | some decision =>
        obtain ⟨p, reason, hp, hrefuses, rfl⟩ := stop?_eq_some .exit hregistry hexit
        rw [transition_of_exit_refused hkeyed hdiffers hopens hp (hstandard p) hrefuses]
        exact ⟨_, rfl, rfl⟩
      | none =>
        have hleaves := stop?_eq_none .exit hregistry hexit
        rw [transition_of_opens hkeyed hdiffers hopens hleaves,
          effectsThrough_eq_welcome hregistry, effectsThrough_eq_welcome hregistry]
        exact ⟨_, rfl, withoutPresence_allow ..⟩

/-! ### What belonging to a region does -/

section Belonging

variable {gate : Gate} {p origin destination : Position} {standing standing' : Gate → Bool}

/-- A gate stops a move by a decision that blocks it. -/
theorem isBlocked_of_stop? {belongs : Bool} {decision : TransitionDecision}
    (h : e.stop? gate p belongs = some decision) : decision.isBlocked = true := by
  rw [stop?] at h
  split at h
  · cases h
  · obtain ⟨r, -, hbarrier⟩ := Option.bind_eq_some_iff.mp h
    rw [barrier?] at hbarrier
    split at hbarrier
    · rw [← Option.some.inj hbarrier]
      rfl
    · cases hbarrier

/-- A move is let through just if it stays within one region, or outside of all, or neither gate
stops it. -/
theorem isBlocked_outcome_eq_false_iff :
    (e.outcome origin destination standing).isBlocked = false ↔
      (e.index.dominantAt origin).map Region.id = (e.index.dominantAt destination).map Region.id ∨
        e.stop? .entry destination (standing .entry) = none ∧
          e.stop? .exit origin (standing .exit) = none := by
  rw [outcome]
  split
  · rename_i hsame
    exact iff_of_true rfl (.inl hsame)
  · rename_i hdiffers
    rw [or_iff_right hdiffers]
    cases hentry : e.stop? .entry destination (standing .entry) with
    | some decision => simp [isBlocked_of_stop? hentry]
    | none =>
      cases hexit : e.stop? .exit origin (standing .exit) with
      | some decision => simp [isBlocked_of_stop? hexit]
      | none => simp [TransitionDecision.isBlocked]

/-- **Whoever is let through is let through like someone who belongs to both regions.** -/
theorem outcome_of_not_isBlocked
    (h : (e.outcome origin destination standing).isBlocked = false) :
    e.outcome origin destination standing = e.outcome origin destination fun _ => true := by
  rw [isBlocked_outcome_eq_false_iff] at h
  rw [outcome, outcome]
  split
  · rfl
  · rename_i hdiffers
    obtain ⟨hentry, hexit⟩ := h.resolve_left hdiffers
    rw [hentry, hexit]
    rfl

/-- **Belonging to a region opens gates and closes none.** -/
theorem isBlocked_outcome_mono (hmore : ∀ gate, standing gate = true → standing' gate = true)
    (h : (e.outcome origin destination standing).isBlocked = false) :
    (e.outcome origin destination standing').isBlocked = false := by
  have hstop : ∀ gate p, e.stop? gate p (standing gate) = none →
      e.stop? gate p (standing' gate) = none := by
    intro gate p hnone
    by_cases hbelongs : standing' gate = true
    · rw [stop?, if_pos hbelongs]
    · have hstranger : ¬ standing gate = true := fun hs => hbelongs (hmore gate hs)
      rw [stop?, if_neg hstranger] at hnone
      rw [stop?, if_neg hbelongs, hnone]
  rw [isBlocked_outcome_eq_false_iff] at h ⊢
  exact h.imp_right fun ⟨hentry, hexit⟩ => ⟨hstop _ _ hentry, hstop _ _ hexit⟩

end Belonging

/-! ### Two moves between the same points -/

variable [DefinitionSource δ] [ArtifactStore σ]

/-- **Two moves between the same points,** asked of one engine after any run, if its handlers are
the standard ones. Whoever makes them, and whatever they are part of: if both belong to the regions
of the same gates, the decisions are the same but for what they say of presence. If both are let
through, the decisions are the same too, wherever they belong. And whoever belongs wherever another
belongs is let through if the other is. -/
theorem transition_alike (source : δ) (store : σ) (registry : Registry) (buffer : Nat)
    (listening : Bool) (ops : List (Operation δ σ)) :
    let e := (start source store registry buffer listening).after ops
    e.registry = .standard → ∀ request request' : TransitionRequest,
      request'.origin = request.origin → request'.destination = request.destination →
        ∃ decision decision',
          (e.transition request).1 = .ok decision ∧ (e.transition request').1 = .ok decision' ∧
          ((∀ gate, e.standing request' gate = e.standing request gate) →
            decision'.withoutPresence = decision.withoutPresence) ∧
          (decision.isBlocked = false → decision'.isBlocked = false →
            decision'.withoutPresence = decision.withoutPresence) ∧
          ((∀ gate, e.standing request gate = true → e.standing request' gate = true) →
            decision.isBlocked = false → decision'.isBlocked = false) := by
  intro e hregistry request request' horigin hdestination
  have hkeyed : e.index.Keyed Region.id :=
    ((tidy_start source store registry buffer listening).after ops).keyed
  obtain ⟨decision, hdecision, houtcome⟩ := exists_transition hkeyed hregistry request
  obtain ⟨decision', hdecision', houtcome'⟩ := exists_transition hkeyed hregistry request'
  rw [horigin, hdestination] at houtcome'
  refine ⟨decision, decision', hdecision, hdecision', fun halike => ?_, fun h h' => ?_,
    fun hmore h => ?_⟩
  · rw [houtcome, houtcome', funext halike]
  · rw [← TransitionDecision.isBlocked_withoutPresence, houtcome] at h
    rw [← TransitionDecision.isBlocked_withoutPresence, houtcome'] at h'
    rw [houtcome, houtcome', outcome_of_not_isBlocked h, outcome_of_not_isBlocked h']
  · rw [← TransitionDecision.isBlocked_withoutPresence, houtcome] at h
    rw [← TransitionDecision.isBlocked_withoutPresence, houtcome']
    exact isBlocked_outcome_mono hmore h

/-! ### A hall that is closed to strangers -/

/-- A hall that strangers may not enter, and that greets whoever does. -/
def hall : RegionDefinition :=
  { id := ⟨"hall"⟩, owners := ["Ann"], members := ["Ben"],
    flags := [.ofValue .entry (.boolean false), .ofValue .messageOnEntry (.text "Welcome")] }

/-- An engine with the hall in force. -/
def hallEngine : Engine MemorySource MemoryStore :=
  (start {} {} .standard 16 true).after
    [.commitRegion hall (.cuboid ⟨⟨"world", 0, 0, 0⟩, ⟨"world", 9, 9, 9⟩⟩) [] none]

/-- Ann, who owns the hall, walks in. -/
def annWalksIn : TransitionRequest :=
  ⟨some ⟨⟨"1"⟩, "Ann"⟩, ⟨"world", 20, 5, 5⟩, ⟨"world", 5, 5, 5⟩, .unknown⟩

/-- Ben, who is a member, comes the same way on a horse. -/
def benRidesIn : TransitionRequest :=
  { annWalksIn with actor := some ⟨⟨"2"⟩, "Ben"⟩, action := ⟨"vehicle:ride"⟩ }

theorem standing_hall (gate : Gate) :
    hallEngine.standing benRidesIn gate = hallEngine.standing annWalksIn gate := by
  cases gate <;> decide +kernel

/-- Ann is let through the gate of the hall, and there is no other. -/
theorem isBlocked_outcome_hall :
    (hallEngine.outcome annWalksIn.origin annWalksIn.destination
      (hallEngine.standing annWalksIn)).isBlocked = false := by
  have hentry : hallEngine.standing annWalksIn .entry = true := by
    decide +kernel
  have hexit : hallEngine.index.dominantAt annWalksIn.origin = none := by
    rw [← Option.isNone_iff_eq_none]
    decide +kernel
  refine isBlocked_outcome_eq_false_iff.mpr (.inr ⟨?_, ?_⟩)
  · rw [stop?, if_pos hentry]
  · rw [stop?, hexit, Option.bind_none, ite_self]

/-- Ann and Ben are both let in, and in the same way. -/
theorem transition_alike_hall :
    hallEngine.registry = .standard ∧
      (∀ gate, hallEngine.standing benRidesIn gate = hallEngine.standing annWalksIn gate) ∧
      ∃ decision decision', (hallEngine.transition annWalksIn).1 = .ok decision ∧
        (hallEngine.transition benRidesIn).1 = .ok decision' ∧ decision.isBlocked = false ∧
        decision'.withoutPresence = decision.withoutPresence := by
  have hkeyed : hallEngine.index.Keyed Region.id := ((tidy_start ..).after _).keyed
  obtain ⟨outcome, hann, houtcome⟩ := exists_transition hkeyed rfl annWalksIn
  obtain ⟨decision, decision', hdecision, hdecision', halike, -, -⟩ :=
    transition_alike (δ := MemorySource) (σ := MemoryStore) {} {} .standard 16 true
      [.commitRegion hall _ [] none] rfl annWalksIn benRidesIn rfl rfl
  have hsame : outcome = decision := Except.ok.inj (hann.symm.trans hdecision)
  have hpass : decision.isBlocked = false := by
    rw [← hsame, ← TransitionDecision.isBlocked_withoutPresence, houtcome, isBlocked_outcome_hall]
  exact ⟨rfl, standing_hall, decision, decision', hdecision, hdecision', hpass,
    halike standing_hall⟩

end Engine

end RegionPolicy
