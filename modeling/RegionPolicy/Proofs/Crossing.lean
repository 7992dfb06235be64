import RegionPolicy.Proofs.Looking
import RegionPolicy.Proofs.StandardHandlers

/-!
# Crossing from one region to another

What comes of a move, said by what each flag comes to on its own. A look at one flag does not change
what another comes to, so all verdicts can be taken from the engine that the move is asked of; and
the engine that a move leaves behind is the one in which just the flags were looked at that the move
depends on.

A move that stays within one region, or outside of all, depends on no flag. Any other is blocked at
the gate into its destination, if that is refused, and then no flag of the origin is looked at; or
else at the gate out of its origin, if that is refused, and then nothing is to be done at the gate
that had opened. Otherwise it is allowed, and what is to be done at both gates adds up.

Of the handlers it is asked only that those for the region whose flags are looked at are the
standard ones; others may do what they want, since they are not called.

## Main definitions

* `Engine.Refuses` — a gate is closed to whoever makes a move.
* `Engine.effectsOf` — what is to be done on account of some flags.
* `Engine.lookAt`, `Gate.looks` — looking at some flags, and those looked at for a gate.

## Main results

* `Engine.passGate_of_refuses`, `Engine.passGate_of_not_refuses` — what comes of a gate.
* `Engine.transition_eq` — what comes of a move.
-/

namespace RegionPolicy

/-- The flags that are looked at for a gate of a region, with the context in which they are: the
gate itself, unless whoever moves may pass it anyway, and then some others. -/
def Gate.looks (gate : Gate) (request : TransitionRequest) (region : Region)
    (keys : List FlagKey) : List (Context × FlagKey) :=
  (if request.actor.any region.belongsTo then keys else gate.flag :: keys).map fun key =>
    (gate.context request region, key)

theorem Gate.flag_mem (gate : Gate) : gate.flag ∈ Registry.denyWhenFalseKeys := by
  cases gate <;> decide

namespace Engine

variable {δ σ : Type} {e e' : Engine δ σ}

/-- A gate of a region is closed to whoever makes a move: it is not for an owner or a member, and
the flag of the gate is denied. -/
def Refuses (e : Engine δ σ) (request : TransitionRequest) (gate : Gate) (region : Region)
    (reason : Option String) : Prop :=
  request.actor.any region.belongsTo = false ∧
    (e.evaluate (gate.context request region) gate.flag).1 = .ok (.denied reason)

/-- The gate of the region that counts at its point of a move is not refused, or there is no such
region. The handlers for the region are the standard ones. -/
def Opens (e : Engine δ σ) (request : TransitionRequest) (gate : Gate) : Prop :=
  ∀ r ∈ e.index.dominantAt (gate.position request),
    e.registry.StandardFor r ∧ ∀ reason, ¬ e.Refuses request gate r reason

/-- What is to be done on account of some flags, each looked at on its own. -/
def effectsOf (e : Engine δ σ) (c : Context) (keys : List FlagKey) : List TransitionEffect :=
  keys.flatMap fun key =>
    match (e.evaluate c key).1 with
    | .ok (.modify metadata) => [⟨c.region.id, key, metadata⟩]
    | _ => []

/-- What is to be done at an open gate: in this order, what its action, its message and its place to
go to ask for. -/
def effectsThrough (e : Engine δ σ) (request : TransitionRequest) (gate : Gate) :
    List TransitionEffect :=
  (e.index.dominantAt (gate.position request)).toList.flatMap fun r =>
    e.effectsOf (gate.context request r) gate.followUpFlags

/-- The flags that are looked at for an open gate. -/
def looksThrough (e : Engine δ σ) (request : TransitionRequest) (gate : Gate) :
    List (Context × FlagKey) :=
  (e.index.dominantAt (gate.position request)).toList.flatMap fun r =>
    gate.looks request r gate.followUpFlags

/-- The engine once some flags have been looked at, one after the other. -/
def lookAt (e : Engine δ σ) (looks : List (Context × FlagKey)) : Engine δ σ :=
  looks.foldl (fun e look => (e.evaluate look.1 look.2).2) e

/-! ### One look after the other -/

/-- No look at a flag changes the bindings that are found for a region. -/
theorem Looks.bindingsFor_fst (h : Looks e e') {r : Region} (hr : e.index.get? r.id = some r) :
    (e'.bindingsFor r).1 = (e.bindingsFor r).1 := by
  rw [bindingsFor, bindingsFor, h.index]
  rcases h.cache r.id with hsame | ⟨hnone, hadded⟩
  · rw [hsame]
    cases e.cache.get? r.id <;> rfl
  · rw [hnone, hadded, Engine.bearing, hr]
    rfl

/-- **No look at one flag changes what another comes to.** -/
theorem Looks.evaluate_fst (h : Looks e e') {c : Context}
    (hc : e.index.get? c.region.id = some c.region) (key : FlagKey) :
    (e'.evaluate c key).1 = (e.evaluate c key).1 := by
  have hfound := h.bindingsFor_fst hc
  cases hentry : e.registry key with
  | none =>
    have hentry' : e'.registry key = none := h.registry ▸ hentry
    simp only [evaluate, hentry, hentry']
  | some entry =>
    have hentry' : e'.registry key = some entry := h.registry ▸ hentry
    rw [Engine.evaluate_fst hentry', Engine.evaluate_fst hentry, hfound]

/-- Collecting the effects of some flags is looking at them, and adding up what each comes to. -/
theorem Looks.collect_eq (h : Looks e e') {c : Context}
    (hc : e.index.get? c.region.id = some c.region) (hstandard : e.registry.StandardFor c.region)
    (keys : List FlagKey) :
    e'.collect c keys = (.ok (e.effectsOf c keys), e'.lookAt (keys.map fun key => (c, key))) := by
  induction keys generalizing e' with
  | nil => rfl
  | cons key rest ih =>
    have hc' : e'.index.get? c.region.id = some c.region := h.index ▸ hc
    obtain ⟨verdict, hverdict⟩ := exists_verdict hstandard key
    have hlook : e'.evaluate c key = (.ok verdict, (e'.evaluate c key).2) :=
      Prod.ext ((h.evaluate_fst hc key).trans hverdict) rfl
    have heffects : e.effectsOf c (key :: rest) =
        verdict.effects c.region.id key ++ e.effectsOf c rest := by
      simp only [effectsOf, List.flatMap_cons, hverdict]
      cases verdict <;> rfl
    rw [collect, hlook]
    simp only [ih (h.trans (looks_evaluate hc' key)), heffects]
    rfl

/-! ### Gates -/

section Gates

variable {request : TransitionRequest} {gate : Gate} {r : Region}

/-- The gate is judged by its flag when whoever moves is a stranger to the region. -/
theorem Looks.judgeGate_of_stranger (h : Looks e e') (hr : e.index.get? r.id = some r)
    (hstranger : request.actor.any r.belongsTo = false) {verdict : Verdict}
    (hverdict : (e.evaluate (gate.context request r) gate.flag).1 = .ok verdict) :
    e'.judgeGate (gate.context request r) gate =
      (.ok verdict, (e'.evaluate (gate.context request r) gate.flag).2) := by
  have hbypass : (gate.context request r).canBypass = false := hstranger
  rw [judgeGate, hbypass]
  exact Prod.ext ((h.evaluate_fst (c := gate.context request r) hr gate.flag).trans hverdict) rfl

/-- What comes of a gate that is refused: the gate is looked at, and then the flags that say what
happens at a closed gate. -/
theorem Looks.passGate_of_refuses (h : Looks e e') (hr : e.index.get? r.id = some r)
    (hstandard : e.registry.StandardFor r) {reason : Option String}
    (hrefuses : e.Refuses request gate r reason) :
    e'.passGate request gate (some r) =
      (.ok (.closed r.id gate.flag reason
          (e.effectsOf (gate.context request r) gate.denialFlags)),
        e'.lookAt (gate.looks request r gate.denialFlags)) := by
  obtain ⟨hstranger, hdenied⟩ := hrefuses
  have hr' : e'.index.get? r.id = some r := h.index ▸ hr
  have hlooks := h.trans (looks_evaluate (c := gate.context request r) hr' gate.flag)
  have hcollect :=
    hlooks.collect_eq (c := gate.context request r) hr hstandard gate.denialFlags
  simp only [passGate, h.judgeGate_of_stranger hr hstranger hdenied, hcollect]
  rw [Gate.looks, hstranger]
  rfl

/-- What comes of a gate that is not refused: the gate is looked at, unless whoever moves may pass
it anyway, and then the flags that say what happens at an open gate. -/
theorem Looks.passGate_of_not_refuses (h : Looks e e') (hr : e.index.get? r.id = some r)
    (hstandard : e.registry.StandardFor r) (hopen : ∀ reason, ¬ e.Refuses request gate r reason) :
    e'.passGate request gate (some r) =
      (.ok (.opened (e.effectsOf (gate.context request r) gate.followUpFlags)),
        e'.lookAt (gate.looks request r gate.followUpFlags)) := by
  have hr' : e'.index.get? r.id = some r := h.index ▸ hr
  cases hbelongs : request.actor.any r.belongsTo with
  | true =>
    have hjudged : e'.judgeGate (gate.context request r) gate = (.ok .allow, e') := by
      have hbypass : (gate.context request r).canBypass = true := hbelongs
      rw [judgeGate, if_pos hbypass]
    have hcollect := h.collect_eq (c := gate.context request r) hr hstandard gate.followUpFlags
    simp only [passGate, hjudged, hcollect]
    rw [Gate.looks, hbelongs]
    rfl
  | false =>
    obtain ⟨verdict, hverdict⟩ :=
      exists_verdict (c := gate.context request r) hstandard gate.flag
    have hpass : verdict = .pass := by
      refine (verdict_denyWhenFalse (c := gate.context request r) hstandard gate.flag_mem
        hverdict).resolve_right ?_
      rintro ⟨reason, rfl⟩
      exact hopen reason ⟨hbelongs, hverdict⟩
    subst hpass
    have hlooks := h.trans (looks_evaluate (c := gate.context request r) hr' gate.flag)
    have hcollect :=
      hlooks.collect_eq (c := gate.context request r) hr hstandard gate.followUpFlags
    simp only [passGate, h.judgeGate_of_stranger hr hbelongs hverdict, hcollect]
    rw [Gate.looks, hbelongs]
    rfl

/-- What comes of a gate that opens, if there is a region at all. -/
theorem Looks.passGate_of_opens (h : Looks e e') (hkeyed : e.index.Keyed Region.id)
    (hopens : e.Opens request gate) :
    Looks e (e'.lookAt (e.looksThrough request gate)) ∧
      e'.passGate request gate (e.index.dominantAt (gate.position request)) =
        (.ok (.opened (e.effectsThrough request gate)),
          e'.lookAt (e.looksThrough request gate)) := by
  have hin : ∀ r ∈ e.index.dominantAt (gate.position request), e.index.get? r.id = some r :=
    fun r hr => RegionIndex.get?_of_dominantAt hkeyed hr
  have hin' : ∀ r ∈ e.index.dominantAt (gate.position request), e'.index.get? r.id = some r := by
    rw [h.index]
    exact hin
  have hlooks := h.trans (looks_passGate request gate hin')
  have hpass : e'.passGate request gate (e.index.dominantAt (gate.position request)) =
      (.ok (.opened (e.effectsThrough request gate)),
        e'.lookAt (e.looksThrough request gate)) := by
    rw [effectsThrough, looksThrough]
    cases hregion : e.index.dominantAt (gate.position request) with
    | none => rfl
    | some r =>
      obtain ⟨hstandard, hopen⟩ := hopens r hregion
      rw [h.passGate_of_not_refuses (hin r hregion) hstandard hopen]
      simp
  rw [hpass] at hlooks
  exact ⟨hlooks, hpass⟩

end Gates

/-! ### Moves -/

section Moves

variable {request : TransitionRequest}

/-- A move within one region, or outside of all, is allowed, and calls no handler. -/
theorem transition_within (hsame : (e.index.dominantAt request.origin).map Region.id =
      (e.index.dominantAt request.destination).map Region.id) :
    e.transition request = (e.allow request none none []).map .ok id := by
  rw [transition]
  exact if_pos hsame

variable (hkeyed : e.index.Keyed Region.id)
  (hdiffers : (e.index.dominantAt request.origin).map Region.id ≠
    (e.index.dominantAt request.destination).map Region.id)
include hkeyed hdiffers

/-- A move that the region at its destination refuses. -/
theorem transition_of_entry_refused {n : Region}
    (hn : e.index.dominantAt request.destination = some n) (hstandard : e.registry.StandardFor n)
    {reason : Option String} (hrefuses : e.Refuses request .entry n reason) :
    e.transition request =
      (.ok (.blocked n.id .entry reason
          (e.effectsOf (Gate.entry.context request n) Gate.entry.denialFlags)),
        e.lookAt (Gate.entry.looks request n Gate.entry.denialFlags)) := by
  have hin : e.index.get? n.id = some n := RegionIndex.get?_of_dominantAt hkeyed hn
  have hclosed := (Looks.refl e).passGate_of_refuses hin hstandard hrefuses
  rw [transition]
  dsimp only
  rw [if_neg hdiffers, hn, hclosed]
  rfl

/-- A move that the region at its origin refuses, and that at its destination does not. -/
theorem transition_of_exit_refused (hentry : e.Opens request .entry) {p : Region}
    (hp : e.index.dominantAt request.origin = some p) (hstandard : e.registry.StandardFor p)
    {reason : Option String} (hrefuses : e.Refuses request .exit p reason) :
    e.transition request =
      (.ok (.blocked p.id .exit reason
          (e.effectsOf (Gate.exit.context request p) Gate.exit.denialFlags)),
        (e.lookAt (e.looksThrough request .entry)).lookAt
          (Gate.exit.looks request p Gate.exit.denialFlags)) := by
  have hin : e.index.get? p.id = some p := RegionIndex.get?_of_dominantAt hkeyed hp
  obtain ⟨hlooks, hopened⟩ := (Looks.refl e).passGate_of_opens hkeyed hentry
  have hclosed := hlooks.passGate_of_refuses hin hstandard hrefuses
  simp only [Gate.position] at hopened
  rw [transition]
  dsimp only
  rw [if_neg hdiffers, hopened]
  simp only [hp, hclosed]
  rfl

/-- A move that no region refuses. -/
theorem transition_of_opens (hentry : e.Opens request .entry) (hexit : e.Opens request .exit) :
    e.transition request =
      (((e.lookAt (e.looksThrough request .entry)).lookAt (e.looksThrough request .exit)).allow
        request ((e.index.dominantAt request.destination).map Region.id)
        ((e.index.dominantAt request.origin).map Region.id)
        (e.effectsThrough request .entry ++ e.effectsThrough request .exit)).map .ok id := by
  obtain ⟨hlooks, hentered⟩ := (Looks.refl e).passGate_of_opens hkeyed hentry
  obtain ⟨-, hleft⟩ := hlooks.passGate_of_opens hkeyed hexit
  simp only [Gate.position] at hentered hleft
  rw [transition]
  dsimp only
  rw [if_neg hdiffers, hentered]
  simp only [hleft]
  rfl

end Moves

/-- **What comes of a move.** Within one region, or outside of all, it is allowed, and nothing is
to be done. Otherwise the region at the destination may refuse it; or else the region at the origin
may; or else it is allowed. What is to be done is what the flags come to that go with the outcome,
and no other flags are looked at: all that has changed then comes from looking at these. -/
theorem transition_eq (hkeyed : e.index.Keyed Region.id) (request : TransitionRequest) :
    let previous := e.index.dominantAt request.origin
    let next := e.index.dominantAt request.destination
    (previous.map Region.id = next.map Region.id →
      e.transition request = (e.allow request none none []).map .ok id) ∧
    (previous.map Region.id ≠ next.map Region.id →
      (∀ n ∈ next, e.registry.StandardFor n → ∀ reason, e.Refuses request .entry n reason →
        e.transition request =
          (.ok (.blocked n.id .entry reason
              (e.effectsOf (Gate.entry.context request n) Gate.entry.denialFlags)),
            e.lookAt (Gate.entry.looks request n Gate.entry.denialFlags))) ∧
      (e.Opens request .entry →
        (∀ p ∈ previous, e.registry.StandardFor p → ∀ reason, e.Refuses request .exit p reason →
          e.transition request =
            (.ok (.blocked p.id .exit reason
                (e.effectsOf (Gate.exit.context request p) Gate.exit.denialFlags)),
              (e.lookAt (e.looksThrough request .entry)).lookAt
                (Gate.exit.looks request p Gate.exit.denialFlags))) ∧
        (e.Opens request .exit →
          e.transition request =
            (((e.lookAt (e.looksThrough request .entry)).lookAt
                (e.looksThrough request .exit)).allow request (next.map Region.id)
              (previous.map Region.id)
              (e.effectsThrough request .entry ++ e.effectsThrough request .exit)).map .ok id))) :=
  ⟨transition_within, fun hdiffers =>
    ⟨fun _ hn hstandard _ hrefuses =>
      transition_of_entry_refused hkeyed hdiffers hn hstandard hrefuses,
    fun hentry => ⟨fun _ hp hstandard _ hrefuses =>
      transition_of_exit_refused hkeyed hdiffers hentry hp hstandard hrefuses,
    fun hexit => transition_of_opens hkeyed hdiffers hentry hexit⟩⟩⟩

/-! ### A yard and a vault

A move that both regions would refuse: the vault has its say first. -/

/-- A yard that nobody may leave. -/
def yard : Region :=
  .ofDefinition { id := ⟨"yard"⟩, flags := [.ofValue .exit (.boolean false)] }
    (.cuboid ⟨⟨"world", 0, 0, 0⟩, ⟨"world", 9, 9, 9⟩⟩)

/-- A vault that nobody may enter. -/
def vault : Region :=
  .ofDefinition { id := ⟨"vault"⟩, flags := [.ofValue .entry (.boolean false)] }
    (.cuboid ⟨⟨"world", 20, 0, 0⟩, ⟨"world", 29, 9, 9⟩⟩)

/-- An engine with the yard and the vault in force. -/
def vaultEngine : Engine Unit Unit :=
  { start () () .standard 16 true with
    index := SortedMap.insert (SortedMap.insert ∅ yard.id yard) vault.id vault }

/-- A move from the yard to the vault. -/
def breakIn : TransitionRequest :=
  ⟨none, ⟨"world", 5, 5, 5⟩, ⟨"world", 25, 5, 5⟩, .unknown⟩

theorem keyed_vaultEngine : vaultEngine.index.Keyed Region.id :=
  ((SortedMap.keyed_empty _).insert rfl).insert rfl

theorem get?_vault : vaultEngine.index.get? vault.id = some vault := SortedMap.get?_insert_self ..

theorem dominantAt_vault : vaultEngine.index.dominantAt breakIn.destination = some vault := by
  have hid : (vaultEngine.index.dominantAt breakIn.destination).map Region.id = some vault.id := by
    decide +kernel
  obtain ⟨r, hr, hrid⟩ := Option.map_eq_some_iff.mp hid
  have hin := RegionIndex.get?_of_dominantAt keyed_vaultEngine hr
  rw [hrid, get?_vault] at hin
  rw [hr, Option.some.inj hin]

/-- The move is blocked by the vault, though the yard would not let go either. -/
theorem transition_eq_vault :
    vaultEngine.index.Keyed Region.id ∧
      (vaultEngine.index.dominantAt breakIn.origin).map Region.id = some yard.id ∧
      ∃ effects, (vaultEngine.transition breakIn).1 =
        .ok (.blocked vault.id .entry (some "entry.denied") effects) := by
  have horigin : (vaultEngine.index.dominantAt breakIn.origin).map Region.id = some yard.id := by
    decide +kernel
  have hdiffers : (vaultEngine.index.dominantAt breakIn.origin).map Region.id ≠
      (vaultEngine.index.dominantAt breakIn.destination).map Region.id := by
    rw [horigin, dominantAt_vault]
    decide
  have hfresh : vaultEngine.Fresh vault := by
    intro graph hgraph
    cases hgraph
  have hrefuses : vaultEngine.Refuses breakIn .entry vault (some "entry.denied") := by
    refine ⟨rfl, ?_⟩
    rw [evaluate_denyWhenFalse (c := Gate.entry.context breakIn vault) keyed_vaultEngine get?_vault
      hfresh rfl (by decide)]
    have hsupplier : vaultEngine.index.supplier? vault .entry = some vault :=
      RegionIndex.supplier?_of_binds get?_vault (by decide)
    show Except.ok (if (vaultEngine.index.supplier? vault .entry).any _ then _ else _) = _
    rw [hsupplier]
    rfl
  have hmove := ((transition_eq keyed_vaultEngine breakIn).2 hdiffers).1 vault dominantAt_vault
    (Registry.standardFor_standard vault) _ hrefuses
  exact ⟨keyed_vaultEngine, horigin, _, congrArg Prod.fst hmove⟩

end Engine

end RegionPolicy
