import Mathlib.Data.List.Induction
import RegionPolicy.Proofs.Freshness

/-!
# Runs that overlook regions

What is kept for a region is right, in every state that an engine can reach, just if the region was
not overlooked since. Where no region is overlooked, what is kept does not show: every operation
answers as if nothing were kept.

## Main definitions

* `Engine.Overlooked` — a region was overlooked in a run, and nothing was forgotten about it since.
* `Engine.emptied` — an engine that keeps nothing.

## Main results

* `Engine.stale_after_iff` — out of date is what was overlooked.
* `Engine.perform_emptied` — where nothing is out of date, no operation shows what is kept.
* `Engine.bindingsFor_after_iff` — both, of every run from the start.
-/

namespace RegionPolicy

namespace Engine

variable {δ σ : Type} {e e' : Engine δ σ}

/-! ### Runs -/

section Runs

variable [DefinitionSource δ] [ArtifactStore σ]

/-- A region was overlooked in a run, and something was kept for it all the time since. -/
def Overlooked (e : Engine δ σ) (ops : List (Operation δ σ)) (id : RegionId) : Prop :=
  ∃ before op rest, ops = before ++ op :: rest ∧ op.Overlooks (e.after before) id ∧
    ∀ more, more <+: rest → (e.after (before ++ op :: more)).Keeps id

theorem overlooked_concat_iff {ops : List (Operation δ σ)} {op : Operation δ σ} {id : RegionId} :
    e.Overlooked (ops ++ [op]) id ↔
      (e.Overlooked ops id ∨ op.Overlooks (e.after ops) id) ∧ (e.after (ops ++ [op])).Keeps id := by
  constructor
  · rintro ⟨before, first, rest, heq, hover, hkept⟩
    have hkeeps := hkept rest (List.prefix_refl rest)
    rw [← heq] at hkeeps
    refine ⟨?_, hkeeps⟩
    rcases List.eq_nil_or_concat' rest with rfl | ⟨rest, last, rfl⟩
    · obtain ⟨rfl, hop⟩ := List.append_inj' heq rfl
      obtain rfl := List.singleton_inj.mp hop
      exact .inr hover
    · rw [← List.cons_append, ← List.append_assoc] at heq
      obtain ⟨rfl, -⟩ := List.append_inj' heq rfl
      exact .inl ⟨before, first, rest, rfl, hover, fun more hmore =>
        hkept more (hmore.trans (List.prefix_append rest [last]))⟩
  · rintro ⟨⟨before, first, rest, rfl, hover, hkept⟩ | hover, hkeeps⟩
    · refine ⟨before, first, rest ++ [op], by simp, hover, fun more hmore => ?_⟩
      rcases List.prefix_concat_iff.mp hmore with rfl | hmore
      · simpa using hkeeps
      · exact hkept more hmore
    · refine ⟨ops, op, [], rfl, hover, fun more hmore => ?_⟩
      rw [List.prefix_nil.mp hmore]
      exact hkeeps

/-- **Out of date is what was overlooked.** The induction is on the run from its end, since only the
state that it has reached tells what an operation overlooks. -/
theorem stale_after_iff (htidy : e.Tidy) (hfresh : ∀ id, ¬ e.Stale id)
    (ops : List (Operation δ σ)) :
    (e.after ops).Tidy ∧ ∀ id, (e.after ops).Stale id ↔ e.Overlooked ops id := by
  refine ⟨htidy.after ops, fun id => ?_⟩
  induction ops using List.reverseRecOn with
  | nil =>
    refine ⟨fun h => absurd h (hfresh id), ?_⟩
    rintro ⟨before, op, rest, heq, -⟩
    simp at heq
  | append_singleton ops op ih =>
    have heffect := effect_perform (htidy.after ops).keyed op
    have hafter : e.after (ops ++ [op]) = ((e.after ops).perform op).2 := by
      rw [after_append, after_singleton]
    rw [overlooked_concat_iff, hafter, heffect.stale_iff (htidy.after ops), ih]

end Runs

/-! ### Keeping nothing -/

/-- An engine that keeps nothing. -/
def emptied (e : Engine δ σ) : Engine δ σ := { e with cache := ∅ }

theorem not_stale_emptied (e : Engine δ σ) (id : RegionId) : ¬ e.emptied.Stale id := by
  rintro ⟨graph, hgraph, -⟩
  cases hgraph

/-- Two engines differ in what they keep at most, and what they keep is right. -/
structure Twins (e e' : Engine δ σ) : Prop where
  emptied_eq : e.emptied = e'.emptied
  fresh : ∀ id, ¬ e.Stale id
  fresh' : ∀ id, ¬ e'.Stale id

theorem Twins.index_eq (h : Twins e e') : e'.index = e.index := by
  have hindex := congrArg Engine.index h.emptied_eq
  exact hindex.symm

theorem twins_emptied (hfresh : ∀ id, ¬ e.Stale id) : Twins e e.emptied :=
  ⟨rfl, hfresh, not_stale_emptied e⟩

theorem Looks.not_stale (h : Looks e e') (hfresh : ∀ id, ¬ e.Stale id) (id : RegionId) :
    ¬ e'.Stale id := by
  rw [h.steady.stale_iff]
  exact fun hid => hfresh id hid.1

theorem emptied_bindingsFor (e : Engine δ σ) (r : Region) :
    (e.bindingsFor r).2.emptied = e.emptied := by
  obtain ⟨cache, hcache⟩ := bindingsFor_snd e r
  rw [hcache]
  rfl

theorem emptied_record (e : Engine δ σ) (decision : Option Decision) :
    (e.record decision).emptied = e.emptied.record decision := by
  cases decision <;> rfl

/-- No look tells two engines apart that differ in what they keep. -/
theorem congruence_twins : Congruence (Twins (δ := δ) (σ := σ)) where
  index_eq h := h.index_eq
  registry_eq h := by
    have hregistry := congrArg Engine.registry h.emptied_eq
    exact hregistry.symm
  bindingsFor := by
    intro e e' h r hr
    have hr' : e'.index.get? r.id = some r := by rw [h.index_eq, hr]
    refine ⟨?_, ?_, (looks_bindingsFor hr).not_stale h.fresh,
      (looks_bindingsFor hr').not_stale h.fresh'⟩
    · rw [bindingsFor_eq_iff.mpr ((fresh_iff hr).mpr (h.fresh _)),
        bindingsFor_eq_iff.mpr ((fresh_iff hr').mpr (h.fresh' _)), h.index_eq]
    · rw [emptied_bindingsFor, emptied_bindingsFor, h.emptied_eq]
  record := by
    intro e e' h decision
    refine ⟨?_, (looks_record e _).not_stale h.fresh, (looks_record e' _).not_stale h.fresh'⟩
    rw [emptied_record, emptied_record, h.emptied_eq]

theorem allow_emptied (e : Engine δ σ) (request : TransitionRequest)
    (entered exited : Option RegionId) (effects : List TransitionEffect) :
    e.emptied.allow request entered exited effects =
      ((e.allow request entered exited effects).1,
        (e.allow request entered exited effects).2.emptied) := by
  rw [allow, allow]
  split <;> rfl

theorem twins_allow (h : Twins e e') (request : TransitionRequest)
    (entered exited : Option RegionId) (effects : List TransitionEffect) :
    Agree Twins (e.allow request entered exited effects)
      (e'.allow request entered exited effects) := by
  have hallow := congrArg (allow · request entered exited effects) h.emptied_eq
  simp only [allow_emptied, Prod.mk.injEq] at hallow
  exact ⟨hallow.1, hallow.2, (looks_allow ..).not_stale h.fresh,
    (looks_allow ..).not_stale h.fresh'⟩

theorem emptied_foldl_invalidate {ids : List RegionId} (h : e.emptied = e'.emptied) :
    (ids.foldl invalidate e).emptied = (ids.foldl invalidate e').emptied := by
  induction ids generalizing e e' with
  | nil => exact h
  | cons id rest ih =>
    refine ih ?_
    have hinvalidate := congrArg (fun f : Engine δ σ => (f.invalidate id).emptied) h
    exact hinvalidate

section Perform

variable [ArtifactStore σ]

theorem commitRegion_emptied (e : Engine δ σ) (definition : RegionDefinition) (shape : Shape)
    (nodes : List Position) (mode : Option SelectionMode) :
    Agree (fun a b => a.emptied = b.emptied) (e.commitRegion definition shape nodes mode)
      (e.emptied.commitRegion definition shape nodes mode) := by
  simp only [emptied, commitRegion]
  split <;> exact ⟨rfl, rfl⟩

theorem commitArtifact_emptied (e : Engine δ σ) (a : Artifact) (shape : Shape)
    (nodes : List Position) (mode : Option SelectionMode) :
    Agree (fun a b => a.emptied = b.emptied) (e.commitArtifact a shape nodes mode)
      (e.emptied.commitArtifact a shape nodes mode) := by
  simp only [emptied, commitArtifact]
  split
  · exact ⟨rfl, rfl⟩
  · exact ⟨rfl, emptied_foldl_invalidate rfl⟩

variable [DefinitionSource δ]

theorem reload_emptied (e : Engine δ σ) :
    Agree (fun a b => a.emptied = b.emptied) e.reload e.emptied.reload := by
  simp only [emptied, reload]
  split <;> exact ⟨rfl, rfl⟩

/-- **Where nothing is out of date, no operation shows what is kept.** It answers as it would if
nothing were kept, and leaves an engine behind that differs in what it keeps at most. -/
theorem perform_emptied (hkeyed : e.index.Keyed Region.id) (hfresh : ∀ id, ¬ e.Stale id)
    (op : Operation δ σ) :
    Agree (fun a b => a.emptied = b.emptied) (e.perform op) (e.emptied.perform op) := by
  have htwins := twins_emptied hfresh
  cases op with
  | setSource | setStore | setRegistry | invalidate | invalidateAll | forget | drainFeeds =>
    exact ⟨rfl, rfl⟩
  | reload => exact e.reload_emptied.map _
  | commitRegion definition shape nodes mode =>
    exact (e.commitRegion_emptied definition shape nodes mode).map _
  | commitArtifact a shape nodes mode => exact (e.commitArtifact_emptied a shape nodes mode).map _
  | evaluate target c key =>
    exact (congruence_twins.perform_evaluate htwins hkeyed target c key).imp Twins.emptied_eq
  | effective target key =>
    exact (congruence_twins.perform_effective htwins hkeyed target key).imp Twins.emptied_eq
  | inspect target =>
    exact (congruence_twins.perform_inspect htwins hkeyed target).imp Twins.emptied_eq
  | transition request =>
    have hmove := congruence_twins.transition hkeyed htwins request
      fun h entered exited effects => twins_allow h request entered exited effects
    exact (hmove.imp Twins.emptied_eq).map _

/-- **What is kept is right unless it was overlooked,** in every state that an engine can reach.
Where no region in force was overlooked, what is kept does not show. -/
theorem bindingsFor_after_iff (source : δ) (store : σ) (registry : Registry) (buffer : Nat)
    (listening : Bool) (ops : List (Operation δ σ)) :
    let e₀ := start source store registry buffer listening
    let e := e₀.after ops
    (∀ id r, e.index.get? id = some r →
        ((e.bindingsFor r).1 = e.index.bindings r ↔ ¬ e₀.Overlooked ops id)) ∧
      ((∀ id r, e.index.get? id = some r → ¬ e₀.Overlooked ops id) →
        ∀ op, Agree (fun a b => a.emptied = b.emptied) (e.perform op) (e.emptied.perform op)) := by
  intro e₀ e
  obtain ⟨htidy, hstale⟩ := stale_after_iff (tidy_start source store registry buffer listening)
    (not_stale_start source store registry buffer listening) ops
  refine ⟨fun id r hr => ?_, fun hnone op => perform_emptied htidy.keyed (fun id hid => ?_) op⟩
  · obtain rfl := htidy.keyed id r hr
    rw [bindingsFor_eq_iff, fresh_iff hr, hstale]
  · obtain ⟨graph, hgraph⟩ := hid.keeps
    obtain ⟨now, hnow, -⟩ := htidy.kept hgraph
    obtain ⟨r, hr, -⟩ := Option.map_eq_some_iff.mp hnow
    exact hnone id r hr ((hstale id).mp hid)

end Perform

/-! ### A house before its town

The shortest run in which a region is overlooked: a house is looked at while it stands alone, and
then the town that it names as its parent comes into force, with a flag that is inherited. -/

section House

open RegionIndex

/-- A house comes into force. -/
def housing : Operation MemorySource MemoryStore :=
  .commitRegion house.definition .empty [] none

/-- Someone wants to build in the house. -/
def asking : Operation MemorySource MemoryStore :=
  .evaluate house.id { region := house, action := .unknown } .build

/-- The town comes into force. -/
def founding : Operation MemorySource MemoryStore :=
  .commitRegion town.definition .empty [] none

/-- An engine without regions, and with nothing to load. -/
def bare : Engine MemorySource MemoryStore := start {} {} .standard 64 true

/-- The engine with the house alone. -/
def housed : Engine MemorySource MemoryStore := bare.after [housing]

/-- The engine with the house alone, once it was looked at. -/
def asked : Engine MemorySource MemoryStore := bare.after [housing, asking]

/-- The engine with both regions. -/
def founded : Engine MemorySource MemoryStore := bare.after [housing, asking, founding]

theorem get?_index_housed : housed.index.get? house.id = some house := by rfl

theorem lineage_housed : housed.index.lineage house.id = [house] := by
  have htown : (SortedMap.erase housed.index house.id).get? town.id = none := by rfl
  rw [lineage_eq_append get?_index_housed, ancestors]
  show (SortedMap.follow Region.parent (SortedMap.erase housed.index house.id)
    (some town.id)).reverse ++ [house] = [house]
  rw [SortedMap.follow_of_get?_eq_none htown]
  rfl

theorem looks_asked : Looks housed asked := by
  have hkeyed : housed.index.Keyed Region.id := (SortedMap.keyed_empty _).insert rfl
  exact looks_ask hkeyed fun r hr => looks_evaluate (c := Context.forRegion _ r) hr .build

/-- What is kept for the house says nothing about building. -/
theorem get?_cache_asked : asked.cache.get? house.id = some ⟨[]⟩ := by
  have hnone : housed.cache.get? house.id = none := by
    show SortedMap.get? (invalidate _ _).cache _ = _
    rw [get?_cache_invalidate]
    split <;> rfl
  have hbindings : housed.index.bindings house = ⟨[]⟩ := by
    rw [bindings_eq get?_index_housed, lineage_housed]
    rfl
  have hentry : housed.registry .build = some ⟨.boolean, Handler.denyWhenFalse⟩ := by rfl
  have hcache : asked.cache = (housed.bindingsFor house).2.cache :=
    cache_evaluate hentry { region := house, action := .unknown }
  rw [hcache, bindingsFor, hnone, hbindings]
  exact SortedMap.get?_insert_self ..

theorem get?_asked_town : asked.index.get? town.id = none := by
  rw [looks_asked.index]
  rfl

theorem index_founded : founded.index = townIndex := by
  show asked.index.replaceShape town.definition .empty = townIndex
  rw [looks_asked.index]
  rfl

theorem get?_index_founded : founded.index.get? house.id = some house := by
  rw [index_founded]
  exact get?_townIndex_house

/-- The town forgets nothing about the house. -/
theorem get?_cache_founded : founded.cache.get? house.id = some ⟨[]⟩ := by
  show SortedMap.get? (invalidate { asked with
    index := asked.index.replaceShape town.definition .empty } town.definition.id).cache _ = _
  rw [get?_cache_invalidate, replaceShape_of_get?_eq_none get?_asked_town, descendants_insert,
    if_neg (by decide), get?_cache_asked]

theorem overlooked_founded : bare.Overlooked [housing, asking, founding] house.id := by
  refine ⟨[housing, asking], founding, [], rfl, ?_, fun more hmore => ?_⟩
  · refine ⟨rfl, get?_asked_town, by decide, ⟨_, get?_cache_asked⟩, town, ?_, ?_,
      List.cons_ne_nil _ _⟩
    · show town ∈ founded.index.lineage house.id
      rw [index_founded, lineage_house]
      exact List.mem_cons_self
    · show town ∉ asked.index.lineage house.id
      rw [looks_asked.index, lineage_housed]
      intro htown
      have hid : town.id = house.id := congrArg Region.id (List.mem_singleton.mp htown)
      exact absurd hid (by decide)
  · rw [List.prefix_nil.mp hmore]
    exact ⟨_, get?_cache_founded⟩

theorem bindingsFor_after_iff_founded :
    founded.index.get? house.id = some house ∧
      bare.Overlooked [housing, asking, founding] house.id ∧
      (founded.bindingsFor house).1 ≠ founded.index.bindings house := by
  obtain ⟨hexact, -⟩ := bindingsFor_after_iff ({} : MemorySource) ({} : MemoryStore) .standard 64
    true [housing, asking, founding]
  exact ⟨get?_index_founded, overlooked_founded, fun h =>
    (hexact _ _ get?_index_founded).mp h overlooked_founded⟩

/-- **What is kept can show.** Building in the house is denied by the town's binding, but the engine
does not see it, since it keeps what it found when the house stood alone. -/
theorem answer_founded :
    founded.index.get? house.id = some house ∧
      (founded.bindingsFor house).1 ≠ founded.index.bindings house ∧
      (founded.perform asking).1 = .verdict (.ok .pass) ∧
      (founded.emptied.perform asking).1 = .verdict (.ok (.deny "build.denied")) := by
  have hkept : (founded.bindingsFor house).1 = ⟨[]⟩ := by rw [bindingsFor, get?_cache_founded]
  have hbindings : founded.index.bindings house = ⟨town.ownBindings⟩ := by
    rw [bindings_eq get?_index_founded, index_founded, lineage_house]
    rfl
  have hentry : founded.registry .build = some ⟨.boolean, Handler.denyWhenFalse⟩ := by
    show asked.registry .build = _
    rw [looks_asked.registry]
    rfl
  refine ⟨get?_index_founded, ?_, ?_, ?_⟩
  · rw [hkept, hbindings]
    exact fun h => List.cons_ne_nil _ _ (congrArg BindingGraph.bindings h).symm
  · show (founded.ask house.id _).1 = _
    rw [ask, get?_index_founded]
    show Answer.verdict (founded.evaluate { region := house, action := .unknown } .build).1 = _
    rw [evaluate_fst hentry, hkept]
    rfl
  · show (founded.emptied.ask house.id _).1 = _
    have hhouse : founded.emptied.index.get? house.id = some house := get?_index_founded
    have hfound : (founded.emptied.bindingsFor house).1 = ⟨town.ownBindings⟩ := hbindings
    rw [ask, hhouse]
    show Answer.verdict
      (founded.emptied.evaluate { region := house, action := .unknown } .build).1 = _
    have hentry' : founded.emptied.registry .build = some ⟨.boolean, Handler.denyWhenFalse⟩ :=
      hentry
    rw [evaluate_fst hentry', hfound]
    rfl

end House

end Engine

end RegionPolicy
