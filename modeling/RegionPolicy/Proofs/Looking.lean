import RegionPolicy.Engine.Movement
import RegionPolicy.Proofs.Evaluation

/-!
# Looking at flags

Verdicts, inspections and moves all come from looking at the flags of regions in force, one after
the other. Looking leaves the regions alone: it adds to what is kept, and puts decisions on record.

A move looks at many flags, so what one look does is carried through a whole move, once and for any
relation between engines. Taken between an engine and itself, such a relation says what a move may
change; taken between two engines, it says that a move does not tell them apart.

## Main definitions

* `Engine.bearing` — the bindings that bear on the region with an id.
* `Engine.Looks` — what looking at flags may change.
* `Engine.Congruence` — a relation that no look at a flag breaks or shows.

## Main results

* `Engine.looks_evaluate`, `Engine.looks_transition` — looking does no more than `Engine.Looks`.
* `Engine.Congruence.transition_cases` — how a move ends in related engines.
* `Engine.Congruence.passGate`, `Engine.Congruence.transition` — a relation that no look breaks or
  shows, no move breaks or shows.
-/

namespace RegionPolicy

namespace RegionIndex

variable {index : RegionIndex}

/-- The region that counts at a point is in force. -/
theorem get?_of_dominantAt (hindex : index.Keyed Region.id) {p : Position} {r : Region}
    (h : index.dominantAt p = some r) : index.get? r.id = some r := by
  have hmem : r ∈ index.regionsAt p := List.mem_of_head? h
  exact hindex.mem_values_iff.mp (List.mem_filter.mp (mem_rank.mp hmem)).1

end RegionIndex

namespace Engine

variable {δ σ : Type} {e e' e'' : Engine δ σ}

/-! ### What looking may change -/

/-- The bindings that bear on the region with an id, if there is one. -/
def bearing (e : Engine δ σ) (id : RegionId) : Option BindingGraph :=
  (e.index.get? id).map e.index.bindings

/-- What looking at flags may change: what is kept, where actors are, and what is on record. What
is kept stays, and what is added is right. -/
structure Looks (e e' : Engine δ σ) : Prop where
  /-- Nothing else changes. -/
  frame : { e' with cache := e.cache, presence := e.presence, decisions := e.decisions } = e
  /-- Bindings are added only where none were kept. -/
  cache : ∀ id, e'.cache.get? id = e.cache.get? id ∨
    e.cache.get? id = none ∧ e'.cache.get? id = e.bearing id

namespace Looks

theorem refl (e : Engine δ σ) : Looks e e := ⟨rfl, fun _ => .inl rfl⟩

theorem index (h : Looks e e') : e'.index = e.index := by
  have hindex := congrArg Engine.index h.frame
  exact hindex

theorem registry (h : Looks e e') : e'.registry = e.registry := by
  have hregistry := congrArg Engine.registry h.frame
  exact hregistry

theorem bearing (h : Looks e e') (id : RegionId) : e'.bearing id = e.bearing id := by
  rw [Engine.bearing, Engine.bearing, h.index]

theorem trans (h₁ : Looks e e') (h₂ : Looks e' e'') : Looks e e'' where
  frame := by
    have hframe := congrArg (fun f : Engine δ σ =>
      { f with cache := e.cache, presence := e.presence, decisions := e.decisions }) h₂.frame
    exact hframe.trans h₁.frame
  cache id := by
    rcases h₂.cache id with hsame | ⟨hnone, hadded⟩
    · rw [hsame]
      exact h₁.cache id
    · rw [hadded, h₁.bearing id]
      rcases h₁.cache id with hsame | ⟨hnone', -⟩
      · exact .inr ⟨hsame ▸ hnone, rfl⟩
      · exact .inr ⟨hnone', rfl⟩

end Looks

theorem looks_bindingsFor {r : Region} (hr : e.index.get? r.id = some r) :
    Looks e (e.bindingsFor r).2 := by
  rw [bindingsFor]
  split
  · exact .refl e
  · rename_i hnone
    refine ⟨rfl, fun id => ?_⟩
    show SortedMap.get? (e.cache.insert r.id (e.index.bindings r)) id = _ ∨ _ ∧ _ = _
    rw [SortedMap.get?_insert]
    split
    · rename_i hid
      rw [hid, bearing, hr]
      exact .inr ⟨hnone, rfl⟩
    · exact .inl rfl

theorem looks_record (e : Engine δ σ) (decision : Option Decision) :
    Looks e (e.record decision) := by
  cases decision with
  | none => exact .refl e
  | some decision => exact ⟨rfl, fun _ => .inl rfl⟩

theorem looks_allow (e : Engine δ σ) (request : TransitionRequest)
    (entered exited : Option RegionId) (effects : List TransitionEffect) :
    Looks e (e.allow request entered exited effects).2 := by
  rw [allow]
  split
  · exact .refl e
  · exact ⟨rfl, fun _ => .inl rfl⟩

/-! ### What no look shows -/

section Congruence

variable {α : Type}

/-- Two results agree: the answers are the same, and the engines left behind are related. -/
def Agree (R : Engine δ σ → Engine δ σ → Prop) (x y : α × Engine δ σ) : Prop :=
  x.1 = y.1 ∧ R x.2 y.2

theorem Agree.exists_eq {R : Engine δ σ → Engine δ σ → Prop} {x y : α × Engine δ σ}
    (h : Agree R x y) : ∃ a e e', x = (a, e) ∧ y = (a, e') ∧ R e e' :=
  ⟨x.1, x.2, y.2, rfl, Prod.ext h.1.symm rfl, h.2⟩

theorem Agree.imp {R S : Engine δ σ → Engine δ σ → Prop} (hRS : ∀ {e e'}, R e e' → S e e')
    {x y : α × Engine δ σ} (h : Agree R x y) : Agree S x y :=
  ⟨h.1, hRS h.2⟩

/-- Results that agree still agree when the same is made of their answers. -/
theorem Agree.map {β : Type} {R : Engine δ σ → Engine δ σ → Prop} {x y : α × Engine δ σ}
    (h : Agree R x y) (f : α → β) : Agree R (x.map f id) (y.map f id) :=
  ⟨congrArg f h.1, h.2⟩

/-- A relation between engines that no look at the flags of a region breaks or shows. -/
structure Congruence (R : Engine δ σ → Engine δ σ → Prop) : Prop where
  /-- Related engines have the same regions. -/
  index_eq : ∀ {e e' : Engine δ σ}, R e e' → e'.index = e.index
  /-- Related engines have the same handlers. -/
  registry_eq : ∀ {e e' : Engine δ σ}, R e e' → e'.registry = e.registry
  /-- Related engines find the same bindings for a region in force, and stay related. -/
  bindingsFor : ∀ {e e' : Engine δ σ}, R e e' → ∀ {r : Region}, e.index.get? r.id = some r →
    Agree R (e.bindingsFor r) (e'.bindingsFor r)
  /-- Related engines stay related when the same goes on record. -/
  record : ∀ {e e' : Engine δ σ}, R e e' → ∀ decision, R (e.record decision) (e'.record decision)

namespace Congruence

variable {R : Engine δ σ → Engine δ σ → Prop}

theorem effective (hR : Congruence R) (h : R e e') {r : Region}
    (hr : e.index.get? r.id = some r) (key : FlagKey) :
    Agree R (e.effective r key) (e'.effective r key) := by
  obtain ⟨graph, e₁, e₁', hx, hy, h₁⟩ := (hR.bindingsFor h hr).exists_eq
  rw [Engine.effective, Engine.effective, hx, hy]
  exact ⟨rfl, h₁⟩

theorem inspect (hR : Congruence R) (h : R e e') {r : Region}
    (hr : e.index.get? r.id = some r) : Agree R (e.inspect r) (e'.inspect r) := by
  obtain ⟨graph, e₁, e₁', hx, hy, h₁⟩ := (hR.bindingsFor h hr).exists_eq
  rw [Engine.inspect, Engine.inspect, hx, hy]
  exact ⟨rfl, h₁⟩

theorem evaluate (hR : Congruence R) (h : R e e') {c : Context}
    (hc : e.index.get? c.region.id = some c.region) (key : FlagKey) :
    Agree R (e.evaluate c key) (e'.evaluate c key) := by
  rw [Engine.evaluate, Engine.evaluate, hR.registry_eq h]
  split
  · exact ⟨rfl, h⟩
  · obtain ⟨graph, e₁, e₁', hx, hy, h₁⟩ := (hR.bindingsFor h hc).exists_eq
    rw [hx, hy]
    dsimp only
    split
    · exact ⟨rfl, h₁⟩
    · exact ⟨rfl, hR.record h₁ _⟩

theorem judgeGate (hR : Congruence R) (h : R e e') {c : Context}
    (hc : e.index.get? c.region.id = some c.region) (gate : Gate) :
    Agree R (e.judgeGate c gate) (e'.judgeGate c gate) := by
  rw [Engine.judgeGate, Engine.judgeGate]
  split
  · exact ⟨rfl, h⟩
  · exact hR.evaluate h hc gate.flag

end Congruence

/-- An engine with itself, as far as it came from another by looking. -/
theorem congruence_looks (e₀ : Engine δ σ) :
    Congruence fun a b : Engine δ σ => a = b ∧ Looks e₀ a where
  index_eq h := by rw [h.1]
  registry_eq h := by rw [h.1]
  bindingsFor := by
    rintro a b ⟨rfl, ha⟩ r hr
    exact ⟨rfl, rfl, ha.trans (looks_bindingsFor hr)⟩
  record := by
    rintro a b ⟨rfl, ha⟩ decision
    exact ⟨rfl, ha.trans (looks_record a decision)⟩

theorem looks_effective {r : Region} (hr : e.index.get? r.id = some r) (key : FlagKey) :
    Looks e (e.effective r key).2 :=
  ((congruence_looks e).effective ⟨rfl, .refl e⟩ hr key).2.2

theorem looks_inspect {r : Region} (hr : e.index.get? r.id = some r) : Looks e (e.inspect r).2 :=
  ((congruence_looks e).inspect ⟨rfl, .refl e⟩ hr).2.2

theorem looks_evaluate {c : Context} (hc : e.index.get? c.region.id = some c.region)
    (key : FlagKey) : Looks e (e.evaluate c key).2 :=
  ((congruence_looks e).evaluate ⟨rfl, .refl e⟩ hc key).2.2

theorem looks_judgeGate {c : Context} (hc : e.index.get? c.region.id = some c.region)
    (gate : Gate) : Looks e (e.judgeGate c gate).2 :=
  ((congruence_looks e).judgeGate ⟨rfl, .refl e⟩ hc gate).2.2

/-! ### Moves -/

namespace Congruence

variable {R : Engine δ σ → Engine δ σ → Prop}

theorem collect (hR : Congruence R) (h : R e e') {c : Context}
    (hc : e.index.get? c.region.id = some c.region) (keys : List FlagKey) :
    Agree R (e.collect c keys) (e'.collect c keys) := by
  induction keys generalizing e e' with
  | nil => exact ⟨rfl, h⟩
  | cons key rest ih =>
    have hlooks := looks_evaluate hc key
    obtain ⟨result, e₁, e₁', hx, hy, h₁⟩ := (hR.evaluate h hc key).exists_eq
    rw [hx] at hlooks
    rw [Engine.collect, Engine.collect, hx, hy]
    cases result with
    | error failure => exact ⟨rfl, h₁⟩
    | ok verdict =>
      have hc₁ : e₁.index.get? c.region.id = some c.region := by rw [hlooks.index, hc]
      obtain ⟨result, e₂, e₂', hx₂, hy₂, h₂⟩ := (ih h₁ hc₁).exists_eq
      simp only [hx₂, hy₂]
      cases result <;> exact ⟨rfl, h₂⟩

theorem passGate (hR : Congruence R) (h : R e e') (request : TransitionRequest) (gate : Gate)
    {region : Option Region} (hregion : ∀ r ∈ region, e.index.get? r.id = some r) :
    Agree R (e.passGate request gate region) (e'.passGate request gate region) := by
  cases region with
  | none => exact ⟨rfl, h⟩
  | some r =>
    have hr : e.index.get? r.id = some r := hregion r rfl
    have hlooks := looks_judgeGate (c := gate.context request r) hr gate
    obtain ⟨result, e₁, e₁', hx, hy, h₁⟩ :=
      (hR.judgeGate h (c := gate.context request r) hr gate).exists_eq
    rw [hx] at hlooks
    have hr₁ : e₁.index.get? r.id = some r := by rw [hlooks.index, hr]
    have hcollect := fun keys => hR.collect h₁ (c := gate.context request r) hr₁ keys
    simp only [Engine.passGate, hx, hy]
    cases result with
    | error failure => exact ⟨rfl, h₁⟩
    | ok verdict =>
      cases verdict with
      | denied reason =>
        obtain ⟨result, e₂, e₂', hx₂, hy₂, h₂⟩ := (hcollect gate.denialFlags).exists_eq
        simp only [hx₂, hy₂]
        cases result <;> exact ⟨rfl, h₂⟩
      | _ =>
        obtain ⟨result, e₂, e₂', hx₂, hy₂, h₂⟩ := (hcollect gate.followUpFlags).exists_eq
        simp only [hx₂, hy₂]
        cases result <;> exact ⟨rfl, h₂⟩

end Congruence

theorem looks_passGate (request : TransitionRequest) (gate : Gate) {region : Option Region}
    (hregion : ∀ r ∈ region, e.index.get? r.id = some r) :
    Looks e (e.passGate request gate region).2 :=
  ((congruence_looks e).passGate ⟨rfl, .refl e⟩ request gate hregion).2.2

namespace Congruence

variable {R : Engine δ σ → Engine δ σ → Prop}

/-- **How a move ends in related engines.** Until it is allowed it ends in both with the same result;
and if it is allowed, it is allowed in both in the same way. -/
theorem transition_cases (hR : Congruence R) (hindex : e.index.Keyed Region.id) (h : R e e')
    (request : TransitionRequest) :
    (∃ result a b, e.transition request = (result, a) ∧ e'.transition request = (result, b) ∧
        R a b) ∨
      ∃ entered exited effects a b,
        e.transition request = (a.allow request entered exited effects).map .ok id ∧
          e'.transition request = (b.allow request entered exited effects).map .ok id ∧ R a b := by
  rw [Engine.transition, Engine.transition, hR.index_eq h]
  dsimp only
  split
  · exact .inr ⟨none, none, [], e, e', rfl, rfl, h⟩
  · have hnext : ∀ r ∈ e.index.dominantAt request.destination, e.index.get? r.id = some r :=
      fun r hr => RegionIndex.get?_of_dominantAt hindex hr
    have hlooks := looks_passGate request .entry hnext
    obtain ⟨entry, e₁, e₁', hx, hy, h₁⟩ := (hR.passGate h request .entry hnext).exists_eq
    rw [hx] at hlooks
    rw [hx, hy]
    -- the gate out of the origin is looked at by the engine that the first gate left behind
    have hprevious : ∀ r ∈ e.index.dominantAt request.origin, e₁.index.get? r.id = some r := by
      rw [hlooks.index]
      exact fun r hr => RegionIndex.get?_of_dominantAt hindex hr
    obtain ⟨exit, e₂, e₂', hx₂, hy₂, h₂⟩ := (hR.passGate h₁ request .exit hprevious).exists_eq
    cases entry with
    | error failure => exact .inl ⟨_, e₁, e₁', rfl, rfl, h₁⟩
    | ok entered =>
      cases entered with
      | closed region flag reason effects => exact .inl ⟨_, e₁, e₁', rfl, rfl, h₁⟩
      | opened entering =>
        simp only [hx₂, hy₂]
        cases exit with
        | error failure => exact .inl ⟨_, e₂, e₂', rfl, rfl, h₂⟩
        | ok exited =>
          cases exited with
          | closed region flag reason effects => exact .inl ⟨_, e₂, e₂', rfl, rfl, h₂⟩
          | opened leaving =>
            exact .inr ⟨_, _, entering ++ leaving, e₂, e₂', rfl, rfl, h₂⟩

/-- **A relation that no look breaks or shows, no move breaks or shows,** if presence does not
either. -/
theorem transition (hR : Congruence R) (hindex : e.index.Keyed Region.id) (h : R e e')
    (request : TransitionRequest)
    (hallow : ∀ {a b : Engine δ σ}, R a b → ∀ entered exited effects,
      Agree R (a.allow request entered exited effects) (b.allow request entered exited effects)) :
    Agree R (e.transition request) (e'.transition request) := by
  rcases hR.transition_cases hindex h request with
    ⟨result, a, b, hx, hy, hab⟩ | ⟨entered, exited, effects, a, b, hx, hy, hab⟩
  · rw [hx, hy]
    exact ⟨rfl, hab⟩
  · rw [hx, hy]
    exact (hallow hab entered exited effects).map Except.ok

end Congruence

theorem looks_transition (hindex : e.index.Keyed Region.id) (request : TransitionRequest) :
    Looks e (e.transition request).2 := by
  refine ((congruence_looks e).transition hindex ⟨rfl, .refl e⟩ request ?_).2.2
  rintro a b ⟨rfl, ha⟩ entered exited effects
  exact ⟨rfl, rfl, ha.trans (looks_allow a request entered exited effects)⟩

end Congruence

end Engine

end RegionPolicy
