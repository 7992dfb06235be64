import RegionPolicy.Proofs.Evaluation

/-!
# The standard handlers

What the handlers that are there from the start make of bindings. None of them ever fails. A flag
that denies when it is off is denied by the first binding that turns it off, wherever that stands
among the others, and passes if there is none; nothing is to be done on its account.

## Main definitions

* `HandlerEntry.denyWhenFalse` — the handler of the flags that deny when they are off.
* `ResolvedBinding.isOff` — a binding turns its flag off.
* `HandlerEntry.Total` — a handler always comes to a verdict.
* `HandlerEntry.Silent` — a handler that leaves no record.
* `Region.turnsOff` — the definition of a region turns a flag off.
* `Registry.StandardFor` — the handlers for the flags of one region are the standard ones.

## Main results

* `HandlerEntry.ruling_denyWhenFalse` — what bindings of such a flag come to.
* `Registry.silent_standard` — the other handlers leave no record.
* `Registry.total_standard`, `Engine.exists_verdict` — looking at a flag never fails.
* `Engine.evaluate_denyWhenFalse` — such a flag is denied just if its supplier turns it off.
-/

namespace RegionPolicy

/-- Whether a binding turns its flag off. -/
def ResolvedBinding.isOff (b : ResolvedBinding) : Bool :=
  b.binding.value = .boolean false

/-- Whether a region has a binding that turns a flag off. -/
def Region.turnsOff (r : Region) (key : FlagKey) : Bool :=
  (r.bindingsOf key).any ResolvedBinding.isOff

/-! ### Flags that deny when they are off -/

namespace HandlerEntry

/-- The handler of the flags that deny when they are off. -/
def denyWhenFalse : HandlerEntry := ⟨.boolean, Handler.denyWhenFalse⟩

theorem handler_denyWhenFalse (c : Context) (b : ResolvedBinding) :
    denyWhenFalse.handler c b =
      if b.isOff then .ok (.deny (b.binding.key.id ++ ".denied")) else .ok .pass := by
  cases hvalue : b.binding.value with
  | boolean enabled =>
    cases enabled <;>
      simp [denyWhenFalse, Handler.denyWhenFalse, FlagValue.boolean?, ResolvedBinding.isOff, hvalue]
  | _ =>
    simp [denyWhenFalse, Handler.denyWhenFalse, FlagValue.boolean?, ResolvedBinding.isOff, hvalue]

theorem takes_denyWhenFalse_of_isOff {b : ResolvedBinding} (h : b.isOff) :
    denyWhenFalse.takes b := by
  have hvalue : b.binding.value = .boolean false := by simpa [ResolvedBinding.isOff] using h
  simp [takes, denyWhenFalse, hvalue, FlagValue.kind]

theorem atOnce_denyWhenFalse (c : Context) (b : ResolvedBinding) :
    denyWhenFalse.atOnce c b =
      if b.isOff then
        some (.ok ⟨.deny (b.binding.key.id ++ ".denied"),
          some (c.decision .deny b (some (b.binding.key.id ++ ".denied")))⟩)
      else none := by
  rw [atOnce, handler_denyWhenFalse]
  cases b.isOff <;> rfl

/-- **The first binding that turns the flag off denies,** and without one the flag passes. -/
theorem ruling_denyWhenFalse (c : Context) (bindings : List ResolvedBinding) :
    denyWhenFalse.ruling c (bindings.filter denyWhenFalse.takes) =
      match bindings.find? ResolvedBinding.isOff with
      | some b =>
        .ok ⟨.deny (b.binding.key.id ++ ".denied"),
          some (c.decision .deny b (some (b.binding.key.id ++ ".denied")))⟩
      | none => .ok ⟨.pass, none⟩ := by
  have hfind : (bindings.filter denyWhenFalse.takes).findSome? (denyWhenFalse.atOnce c) =
      (bindings.find? ResolvedBinding.isOff).bind (denyWhenFalse.atOnce c) := by
    induction bindings with
    | nil => rfl
    | cons b rest ih =>
      by_cases hoff : b.isOff
      · rw [List.filter_cons_of_pos (takes_denyWhenFalse_of_isOff hoff), List.findSome?_cons,
          List.find?_cons_of_pos hoff, Option.bind_some, atOnce_denyWhenFalse, if_pos hoff]
      · rw [List.find?_cons_of_neg hoff, ← ih, List.filter_cons]
        split
        · rw [List.findSome?_cons, atOnce_denyWhenFalse, if_neg hoff]
        · rfl
  have hquiet : ∀ b, denyWhenFalse.requests c b = [] ∧ denyWhenFalse.allows c b = false := by
    intro b
    rw [requests, allows, handler_denyWhenFalse]
    cases b.isOff <;> exact ⟨rfl, rfl⟩
  rw [ruling, hfind]
  cases hoff : bindings.find? ResolvedBinding.isOff with
  | some b =>
    rw [Option.bind_some, atOnce_denyWhenFalse, if_pos (List.find?_some hoff)]
  | none =>
    have hrequests :
        (bindings.filter denyWhenFalse.takes).flatMap (denyWhenFalse.requests c) = [] :=
      List.flatMap_eq_nil_iff.mpr fun b _ => (hquiet b).1
    have hallows : (bindings.filter denyWhenFalse.takes).filter (denyWhenFalse.allows c) = [] :=
      List.filter_eq_nil_iff.mpr fun b _ => by simp [(hquiet b).2]
    rw [Option.bind_none, hrequests, hallows]
    rfl

/-! ### Handlers that never fail -/

/-- A handler comes to a verdict on every binding. -/
def Total (entry : HandlerEntry) : Prop :=
  ∀ c b, ∃ verdict, entry.handler c b = .ok verdict

theorem total_denyWhenFalse : denyWhenFalse.Total := by
  intro c b
  rw [handler_denyWhenFalse]
  split <;> exact ⟨_, rfl⟩

/-- A handler that never fails rules on any bindings. -/
theorem Total.exists_ruling {entry : HandlerEntry} (h : entry.Total) (c : Context)
    (shown : List ResolvedBinding) : ∃ r, entry.ruling c shown = .ok r := by
  rw [ruling]
  cases hfind : shown.findSome? (entry.atOnce c) with
  | some result =>
    obtain ⟨b, -, hb⟩ := List.exists_of_findSome?_eq_some hfind
    obtain ⟨verdict, hverdict⟩ := h c b
    rw [atOnce, hverdict] at hb
    cases verdict with
    | denied reason => exact ⟨_, (Option.some.inj hb).symm⟩
    | _ => cases hb
  | none =>
    simp only
    split
    · split <;> exact ⟨_, rfl⟩
    · exact ⟨_, rfl⟩

/-- With such a handler any binding graph rules. -/
theorem Total.exists_evaluate {entry : HandlerEntry} (h : entry.Total) (g : BindingGraph)
    (c : Context) (key : FlagKey) : ∃ r, g.evaluate entry c key = .ok r := by
  rw [BindingGraph.evaluate]
  split
  · exact ⟨_, rfl⟩
  · rw [examine_empty]
    exact h.exists_ruling c _

/-! ### Handlers that leave no record -/

/-- A handler never fails, denies or allows. -/
def Silent (entry : HandlerEntry) : Prop :=
  ∀ c b, entry.handler c b = .ok .pass ∨ ∃ metadata, entry.handler c b = .ok (.modify metadata)

theorem Silent.total {entry : HandlerEntry} (h : entry.Silent) : entry.Total := by
  intro c b
  rcases h c b with hpass | ⟨metadata, hmodify⟩
  · exact ⟨_, hpass⟩
  · exact ⟨_, hmodify⟩

/-- Such a handler rules on any bindings without a record, and never denies. -/
theorem Silent.exists_ruling {entry : HandlerEntry} (h : entry.Silent) (c : Context)
    (shown : List ResolvedBinding) :
    ∃ verdict, entry.ruling c shown = .ok ⟨verdict, none⟩ ∧
      ∀ reason, verdict ≠ .denied reason := by
  have hquiet : ∀ b, entry.atOnce c b = none ∧ entry.allows c b = false := by
    intro b
    rw [atOnce, allows]
    rcases h c b with hpass | ⟨metadata, hmodify⟩
    · rw [hpass]
      exact ⟨rfl, rfl⟩
    · rw [hmodify]
      exact ⟨rfl, rfl⟩
  have hatOnce : shown.findSome? (entry.atOnce c) = none :=
    List.findSome?_eq_none_iff.mpr fun b _ => (hquiet b).1
  have hallows : shown.filter (entry.allows c) = [] :=
    List.filter_eq_nil_iff.mpr fun b _ => by simp [(hquiet b).2]
  rw [ruling, hatOnce, hallows]
  dsimp only
  split
  · exact ⟨.pass, rfl, fun _ => by simp⟩
  · exact ⟨_, rfl, fun _ => by simp⟩

end HandlerEntry

/-- Handlers that agree in a context rule alike on any bindings. -/
theorem examine_congr {entry entry' : HandlerEntry} {c : Context} (hkind : entry.kind = entry'.kind)
    (hhandler : ∀ b, entry.handler c b = entry'.handler c b) {f : Findings}
    {bindings : List ResolvedBinding} :
    examine entry c f bindings = examine entry' c f bindings := by
  induction bindings generalizing f with
  | nil => rfl
  | cons b rest ih => simp only [examine, hkind, hhandler, ih]

namespace Registry

theorem standard_of_mem {key : FlagKey} (h : key ∈ denyWhenFalseKeys) :
    standard key = some .denyWhenFalse := by
  simp only [denyWhenFalseKeys, List.mem_cons, List.not_mem_nil, or_false] at h
  rcases h with rfl | rfl | rfl | rfl | rfl | rfl | rfl | rfl | rfl | rfl | rfl | rfl | rfl | rfl |
    rfl <;> rfl

/-- **The standard handlers are silent,** but for those of the flags that deny when they are off. -/
theorem silent_standard {key : FlagKey} (hkey : key ∉ denyWhenFalseKeys) {entry : HandlerEntry}
    (h : standard key = some entry) : entry.Silent := by
  have hactions : HandlerEntry.Silent ⟨.actions, Handler.playerActions⟩ := by
    intro c b
    simp only [Handler.playerActions]
    split
    · exact .inl rfl
    · exact .inr ⟨_, rfl⟩
  have hmessage : HandlerEntry.Silent ⟨.text, Handler.message⟩ := by
    intro c b
    simp only [Handler.message]
    split
    · split
      · exact .inl rfl
      · exact .inr ⟨_, rfl⟩
    · exact .inl rfl
  have hteleport : HandlerEntry.Silent ⟨.location, Handler.teleport⟩ := by
    intro c b
    simp only [Handler.teleport]
    split
    · exact .inr ⟨_, rfl⟩
    · exact .inl rfl
  unfold standard at h
  split at h
  · exact Option.some.inj h ▸ hactions
  · exact Option.some.inj h ▸ hactions
  · exact Option.some.inj h ▸ hmessage
  · exact Option.some.inj h ▸ hmessage
  · exact Option.some.inj h ▸ hmessage
  · exact Option.some.inj h ▸ hmessage
  · exact Option.some.inj h ▸ hteleport
  · exact Option.some.inj h ▸ hteleport
  · rw [if_neg hkey] at h
    cases h

/-- The standard handlers never fail. -/
theorem total_standard {key : FlagKey} {entry : HandlerEntry} (h : standard key = some entry) :
    entry.Total := by
  by_cases hkey : key ∈ denyWhenFalseKeys
  · obtain rfl := Option.some.inj ((standard_of_mem hkey).symm.trans h)
    exact HandlerEntry.total_denyWhenFalse
  · exact (silent_standard hkey h).total

/-- The handlers for the flags of one region are the standard ones. What is registered for other
regions does not matter. -/
def StandardFor (registry : Registry) (r : Region) : Prop :=
  ∀ key, match standard key with
    | none => registry key = none
    | some entry => ∃ handler, registry key = some ⟨entry.kind, handler⟩ ∧
        ∀ c b, c.region = r → handler c b = entry.handler c b

theorem standardFor_standard (r : Region) : standard.StandardFor r := by
  intro key
  split
  · assumption
  · rename_i entry hentry
    exact ⟨entry.handler, hentry, fun _ _ _ => rfl⟩

/-- For a region with the standard handlers any binding graph rules as it would with them. -/
theorem StandardFor.evaluate_eq {registry : Registry} {c : Context}
    (h : registry.StandardFor c.region) {key : FlagKey} {entry : HandlerEntry}
    (hentry : registry key = some entry) (g : BindingGraph) :
    ∃ standardEntry, standard key = some standardEntry ∧
      g.evaluate entry c key = g.evaluate standardEntry c key := by
  have hkey := h key
  cases hstandard : standard key with
  | none =>
    simp only [hstandard] at hkey
    rw [hkey] at hentry
    cases hentry
  | some standardEntry =>
    simp only [hstandard] at hkey
    obtain ⟨handler, hregistered, hagree⟩ := hkey
    obtain rfl := Option.some.inj (hregistered.symm.trans hentry)
    refine ⟨standardEntry, rfl, ?_⟩
    rw [BindingGraph.evaluate, BindingGraph.evaluate]
    split
    · rfl
    · refine examine_congr ?_ fun b => ?_
      · rfl
      · exact hagree c b rfl

end Registry

/-! ### Looking at flags -/

namespace Engine

variable {δ σ : Type} {e : Engine δ σ}

/-- For a region with the standard handlers looking at a flag never fails, whatever is kept. -/
theorem exists_verdict {c : Context} (h : e.registry.StandardFor c.region) (key : FlagKey) :
    ∃ verdict, (e.evaluate c key).1 = .ok verdict := by
  cases hentry : e.registry key with
  | none =>
    rw [evaluate, hentry]
    exact ⟨_, rfl⟩
  | some entry =>
    obtain ⟨standardEntry, hstandard, heq⟩ := h.evaluate_eq hentry (e.bindingsFor c.region).1
    obtain ⟨r, hr⟩ :=
      (Registry.total_standard hstandard).exists_evaluate (e.bindingsFor c.region).1 c key
    exact ⟨r.verdict, by rw [evaluate_fst hentry, heq, hr]; rfl⟩

/-- A flag that denies when it is off is denied or passes. -/
theorem verdict_denyWhenFalse {c : Context} (h : e.registry.StandardFor c.region) {key : FlagKey}
    (hkey : key ∈ Registry.denyWhenFalseKeys) {verdict : Verdict}
    (hverdict : (e.evaluate c key).1 = .ok verdict) :
    verdict = .pass ∨ ∃ reason, verdict = .denied reason := by
  cases hentry : e.registry key with
  | none =>
    rw [evaluate, hentry] at hverdict
    exact .inl (Except.ok.inj hverdict).symm
  | some entry =>
    obtain ⟨standardEntry, hstandard, heq⟩ := h.evaluate_eq hentry (e.bindingsFor c.region).1
    obtain rfl := Option.some.inj ((Registry.standard_of_mem hkey).symm.trans hstandard)
    rw [evaluate_fst hentry, heq, BindingGraph.evaluate] at hverdict
    split at hverdict
    · exact .inl (Except.ok.inj hverdict).symm
    · rw [examine_empty, HandlerEntry.ruling_denyWhenFalse] at hverdict
      split at hverdict
      · exact .inr ⟨_, (Except.ok.inj hverdict).symm⟩
      · exact .inl (Except.ok.inj hverdict).symm

/-- **A flag that denies when it is off is denied just if its supplier turns it off.** -/
theorem evaluate_denyWhenFalse {c : Context} (hindex : e.index.Keyed Region.id)
    (hregion : e.index.get? c.region.id = some c.region) (hfresh : e.Fresh c.region)
    (hregistry : e.registry = .standard) {key : FlagKey}
    (hkey : key ∈ Registry.denyWhenFalseKeys) :
    (e.evaluate c key).1 =
      .ok (if (e.index.supplier? c.region key).any fun s => s.turnsOff key then
        .deny (key.id ++ ".denied") else .pass) := by
  have hentry : e.registry key = some .denyWhenFalse := hregistry ▸ Registry.standard_of_mem hkey
  rw [evaluate_fst hentry, bindingsFor_eq_iff.mpr hfresh,
    RegionIndex.evaluate_bindings hindex hregion]
  cases e.index.supplier? c.region key with
  | none => rfl
  | some s =>
    simp only [HandlerEntry.ruling_denyWhenFalse, Option.any_some, Region.turnsOff,
      ← List.isSome_find?]
    cases hoff : (s.bindingsOf key).find? ResolvedBinding.isOff with
    | none => rfl
    | some b =>
      have hbkey : b.binding.key = key :=
        (Region.mem_bindingsOf.mp (List.mem_of_find?_eq_some hoff)).2.2.2
      simp only [hbkey]
      rfl

end Engine

end RegionPolicy
