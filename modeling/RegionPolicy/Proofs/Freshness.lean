import RegionPolicy.Proofs.Commits
import RegionPolicy.Proofs.Loading
import RegionPolicy.Proofs.Looking
import RegionPolicy.Proofs.Runs

/-!
# What is kept, and when it is out of date

What is kept about the flags of a region depends on the regions above it; what is forgotten when a
region changes is found by going down from it. For regions that were loaded together the two agree.
They come apart where a commit brings a region into force: nothing lies below it then, though a
region that is in force may have named it as its parent all along. What is kept for that region,
and for those below it, is overlooked.

This is the only way in which anything that is kept gets out of date, and it does so just if a
region that has flags has come to be above.

## Main definitions

* `Engine.Stale` — what is kept for a region is out of date.
* `Engine.Tidy` — what is kept is at least the lower part of what bears on a region.
* `Engine.Effect` — what an operation does to the regions and to what is kept.
* `Operation.Overlooks` — a region is overlooked by an operation.

## Main results

* `Engine.effect_perform` — every operation has an effect.
* `Engine.Tidy.bearing_arrival` — what a region that comes into force adds to the others.
* `Engine.Effect.tidy`, `Engine.Effect.stale_iff` — what one operation does to what is kept.
-/

namespace RegionPolicy

variable {δ σ : Type}

namespace Engine

variable {e e' : Engine δ σ}

/-! ### Out of date -/

/-- Something is kept for a region. -/
def Keeps (e : Engine δ σ) (id : RegionId) : Prop := ∃ graph, e.cache.get? id = some graph

/-- What is kept for a region is not what bears on it. -/
def Stale (e : Engine δ σ) (id : RegionId) : Prop :=
  ∃ graph, e.cache.get? id = some graph ∧ e.bearing id ≠ some graph

theorem Stale.keeps {id : RegionId} (h : e.Stale id) : e.Keeps id :=
  let ⟨graph, hgraph, _⟩ := h
  ⟨graph, hgraph⟩

/-- What is kept for a region in force is right just if it is not out of date. -/
theorem fresh_iff {r : Region} (hr : e.index.get? r.id = some r) : e.Fresh r ↔ ¬ e.Stale r.id := by
  simp [Fresh, Stale, bearing, hr, eq_comm]

/-! ### Steady regions -/

/-- The regions have the same bindings, and what is kept is what was kept, if not forgotten, or
else right. -/
structure Steady (e e' : Engine δ σ) : Prop where
  bearing : ∀ id, e'.bearing id = e.bearing id
  cache : ∀ id, e'.cache.get? id = none ∨ e'.cache.get? id = e.cache.get? id ∨
    e.cache.get? id = none ∧ e'.cache.get? id = e.bearing id

theorem Looks.steady (h : Looks e e') : Steady e e' where
  bearing := h.bearing
  cache id := .inr (h.cache id)

theorem steady_of_index_eq (hindex : e'.index = e.index)
    (hcache : ∀ id, e'.cache.get? id = none ∨ e'.cache.get? id = e.cache.get? id) :
    Steady e e' where
  bearing id := by rw [bearing, bearing, hindex]
  cache id := (hcache id).imp_right .inl

theorem steady_of_index_eq_reshape (hkeyed : e.index.Keyed Region.id) {picked : Region → Bool}
    {shape : Shape} (hindex : e'.index = e.index.reshape picked shape)
    (hcache : ∀ id, e'.cache.get? id = none ∨ e'.cache.get? id = e.cache.get? id) :
    Steady e e' where
  bearing id := by
    rw [bearing, bearing, hindex]
    exact RegionIndex.bindings_reshape hkeyed picked shape id
  cache id := (hcache id).imp_right .inl

/-- Where regions are steady, what is out of date was so before. -/
theorem Steady.stale_iff (h : Steady e e') (id : RegionId) :
    e'.Stale id ↔ e.Stale id ∧ e'.Keeps id := by
  rcases h.cache id with hnone | hsame | ⟨hnone, hadded⟩
  · simp [Stale, Keeps, hnone]
  · have hstale : e'.Stale id ↔ e.Stale id := by rw [Stale, Stale, hsame, h.bearing]
    exact ⟨fun hid => ⟨hstale.mp hid, hid.keeps⟩, fun hid => hstale.mpr hid.1⟩
  · constructor
    · rintro ⟨graph, hgraph, hbearing⟩
      rw [h.bearing, ← hadded] at hbearing
      exact absurd hgraph hbearing
    · rintro ⟨⟨graph, hgraph, -⟩, -⟩
      rw [hnone] at hgraph
      cases hgraph

end Engine

/-! ### Overlooked regions -/

section Overlooks

variable [ArtifactStore σ]

/-- A region is overlooked by an operation: a commit brings another region into force, and with it
a region that has flags comes to be above the overlooked one, for which something is kept. -/
def Operation.Overlooks (e : Engine δ σ) (id : RegionId) : Operation δ σ → Prop
  | .commitRegion definition shape nodes mode =>
    (e.commitRegion definition shape nodes mode).1 = .ok () ∧
      e.index.get? definition.id = none ∧ id ≠ definition.id ∧ e.Keeps id ∧
      ∃ s ∈ (e.index.replaceShape definition shape).lineage id,
        s ∉ e.index.lineage id ∧ s.definition.flags ≠ []
  | _ => False

end Overlooks

namespace Engine

variable {e e' : Engine δ σ}

/-! ### What one operation does -/

/-- What is kept for a region is the lower part of what bears on it. -/
structure Tidy (e : Engine δ σ) : Prop where
  /-- Every region stands under its own id. -/
  keyed : e.index.Keyed Region.id
  /-- Nothing is kept for a region that is not in force, and nothing but its own bindings and
  those of the nearest regions above it. -/
  kept : ∀ {id graph}, e.cache.get? id = some graph →
    ∃ now, e.bearing id = some now ∧ graph.bindings <:+ now.bindings

theorem tidy_start (source : δ) (store : σ) (registry : Registry) (buffer : Nat)
    (listening : Bool) : (start source store registry buffer listening).Tidy :=
  ⟨SortedMap.keyed_empty _, fun hgraph => by cases hgraph⟩

theorem not_stale_start (source : δ) (store : σ) (registry : Registry) (buffer : Nat)
    (listening : Bool) (id : RegionId) :
    ¬ (start source store registry buffer listening).Stale id := by
  rintro ⟨graph, hgraph, -⟩
  cases hgraph

/-- Questions that agree agree when they are asked about the region with an id. -/
theorem Congruence.ask {R : Engine δ σ → Engine δ σ → Prop} (hR : Congruence R) (h : R e e')
    (hkeyed : e.index.Keyed Region.id) {id : RegionId}
    {question question' : Region → Answer × Engine δ σ}
    (hquestion : ∀ r, e.index.get? r.id = some r → Agree R (question r) (question' r)) :
    Agree R (e.ask id question) (e'.ask id question') := by
  rw [Engine.ask, Engine.ask, hR.index_eq h]
  cases hr : e.index.get? id with
  | none => exact ⟨rfl, h⟩
  | some r => exact hquestion r (hkeyed id r hr ▸ hr)

section Questions

variable [DefinitionSource δ] [ArtifactStore σ] {R : Engine δ σ → Engine δ σ → Prop}
  (hR : Congruence R) (h : R e e') (hkeyed : e.index.Keyed Region.id) (target : RegionId)
include hR h hkeyed

/-- To look at a flag of a region neither breaks nor shows such a relation. -/
theorem Congruence.perform_evaluate (c : Context) (key : FlagKey) :
    Agree R (e.perform (.evaluate target c key)) (e'.perform (.evaluate target c key)) :=
  hR.ask h hkeyed fun r hr => (hR.evaluate h (c := c.forRegion r) hr key).map _

theorem Congruence.perform_effective (key : FlagKey) :
    Agree R (e.perform (.effective target key)) (e'.perform (.effective target key)) :=
  hR.ask h hkeyed fun _ hr => (hR.effective h hr key).map _

theorem Congruence.perform_inspect :
    Agree R (e.perform (.inspect target)) (e'.perform (.inspect target)) :=
  hR.ask h hkeyed fun _ hr => (hR.inspect h hr).map _

end Questions

theorem looks_ask (hkeyed : e.index.Keyed Region.id) {id : RegionId}
    {question : Region → Answer × Engine δ σ}
    (h : ∀ r, e.index.get? r.id = some r → Looks e (question r).2) :
    Looks e (e.ask id question).2 := by
  rw [ask]
  split
  · exact .refl e
  · rename_i r hr
    exact h r (hkeyed id r hr ▸ hr)

section Effect

variable [ArtifactStore σ]

/-- What an operation does to the regions and to what is kept. -/
inductive Effect (e : Engine δ σ) : Operation δ σ → Engine δ σ → Prop where
  /-- The regions are steady. -/
  | steady {op : Operation δ σ} {e' : Engine δ σ} (hkeyed : e'.index.Keyed Region.id)
    (h : Steady e e') (hop : ∀ id, ¬ op.Overlooks e id) : Effect e op e'
  /-- All regions are new, and nothing is kept. -/
  | load {e' : Engine δ σ} (hkeyed : e'.index.Keyed Region.id) (hcache : e'.cache = ∅) :
    Effect e .reload e'
  /-- A region comes into force, and nothing is kept for it. -/
  | arrival {definition : RegionDefinition} {shape : Shape} {nodes : List Position}
    {mode : Option SelectionMode} {e' : Engine δ σ}
    (hsaved : (e.commitRegion definition shape nodes mode).1 = .ok ())
    (hnew : e.index.get? definition.id = none)
    (hindex : e'.index = e.index.insert definition.id (.ofDefinition definition shape))
    (hcache : e'.cache = e.cache.erase definition.id) :
    Effect e (.commitRegion definition shape nodes mode) e'

theorem effect_commitRegion (hkeyed : e.index.Keyed Region.id) (definition : RegionDefinition)
    (shape : Shape) (nodes : List Position) (mode : Option SelectionMode) :
    Effect e (.commitRegion definition shape nodes mode)
      (e.commitRegion definition shape nodes mode).2 := by
  obtain ⟨store, ⟨failure, hfailed⟩ | hdone⟩ := e.commitRegion_cases definition shape nodes mode
  · rw [hfailed]
    refine .steady hkeyed (steady_of_index_eq rfl fun _ => .inr rfl) fun id hid => ?_
    have hsaved := hid.1
    rw [hfailed] at hsaved
    cases hsaved
  · cases hnew : e.index.get? definition.id with
    | some r =>
      rw [hdone]
      have hindex := RegionIndex.replaceShape_of_get? hkeyed hnew shape
      refine .steady ?_ (steady_of_index_eq_reshape hkeyed hindex fun id => ?_) fun id hid => ?_
      · show (e.index.replaceShape definition shape).Keyed Region.id
        exact hindex ▸ RegionIndex.keyed_reshape hkeyed _ shape
      · rw [get?_cache_invalidate]
        split
        · exact .inl rfl
        · exact .inr rfl
      · have hnone := hid.2.1
        rw [hnew] at hnone
        cases hnone
    | none =>
      refine .arrival (by rw [hdone]) hnew ?_ ?_
      · rw [hdone]
        exact RegionIndex.replaceShape_of_get?_eq_none hnew shape
      · rw [hdone, RegionIndex.replaceShape_of_get?_eq_none hnew shape, invalidate,
          RegionIndex.descendants_insert]
        rfl

theorem steady_commitArtifact (hkeyed : e.index.Keyed Region.id) (a : Artifact) (shape : Shape)
    (nodes : List Position) (mode : Option SelectionMode) :
    (e.commitArtifact a shape nodes mode).2.index.Keyed Region.id ∧
      Steady e (e.commitArtifact a shape nodes mode).2 := by
  obtain ⟨store, ⟨failure, hfailed⟩ | hdone⟩ := e.commitArtifact_cases a shape nodes mode
  · rw [hfailed]
    exact ⟨hkeyed, steady_of_index_eq rfl fun _ => .inr rfl⟩
  · have hindex : (e.commitArtifact a shape nodes mode).2.index =
        e.index.reshape (fun r => r.usesArtifact a.id) shape := by
      rw [hdone]
      exact index_foldl_invalidate ..
    refine ⟨hindex ▸ RegionIndex.keyed_reshape hkeyed _ shape,
      steady_of_index_eq_reshape hkeyed hindex fun id => ?_⟩
    rw [hdone, get?_cache_foldl_invalidate]
    split
    · exact .inl rfl
    · exact .inr rfl

variable [DefinitionSource δ]

/-- **Every operation has an effect.** -/
theorem effect_perform (hkeyed : e.index.Keyed Region.id) (op : Operation δ σ) :
    Effect e op (e.perform op).2 := by
  have hlooks : ∀ {e' : Engine δ σ}, (∀ id, ¬ op.Overlooks e id) → Looks e e' → Effect e op e' :=
    fun hop h => .steady (h.index ▸ hkeyed) h.steady hop
  cases op with
  | setSource | setStore | setRegistry | forget | drainFeeds =>
    exact .steady hkeyed (steady_of_index_eq rfl fun _ => .inr rfl) fun _ => id
  | reload =>
    cases hload : DefinitionSource.load e.source with
    | error failure =>
      rw [perform, reload_eq_error hload]
      exact .steady hkeyed (steady_of_index_eq rfl fun _ => .inr rfl) fun _ => id
    | ok definitions =>
      rw [perform, reload_eq hload]
      exact .load (forest_arrange _).keyed rfl
  | commitRegion definition shape nodes mode =>
    exact effect_commitRegion hkeyed definition shape nodes mode
  | commitArtifact a shape nodes mode =>
    obtain ⟨hkeyed', hsteady⟩ := steady_commitArtifact hkeyed a shape nodes mode
    exact .steady hkeyed' hsteady fun _ => id
  | evaluate target c key =>
    refine hlooks (fun _ => id) (looks_ask hkeyed fun r hr => ?_)
    exact looks_evaluate (c := c.forRegion r) hr key
  | effective target key =>
    exact hlooks (fun _ => id) (looks_ask hkeyed fun r hr => looks_effective hr key)
  | inspect target =>
    exact hlooks (fun _ => id) (looks_ask hkeyed fun r hr => looks_inspect hr)
  | transition request => exact hlooks (fun _ => id) (looks_transition hkeyed request)
  | invalidate target =>
    refine .steady hkeyed (steady_of_index_eq rfl fun id => ?_) fun _ => id
    rw [perform, get?_cache_invalidate]
    split
    · exact .inl rfl
    · exact .inr rfl
  | invalidateAll =>
    exact .steady hkeyed (steady_of_index_eq rfl fun _ => .inl rfl) fun _ => id

end Effect

/-! ### What comes to be above -/

section Arrival

variable {definition : RegionDefinition} {shape : Shape}

theorem Tidy.keyed_arrival (h : e.Tidy)
    (hindex : e'.index = e.index.insert definition.id (.ofDefinition definition shape)) :
    e'.index.Keyed Region.id :=
  hindex ▸ h.keyed.insert rfl

/-- **A region that comes into force adds bindings at the top,** and it adds any just if a region
that has flags comes to be above. -/
theorem Tidy.bearing_arrival (h : e.Tidy) (hnew : e.index.get? definition.id = none)
    (hindex : e'.index = e.index.insert definition.id (.ofDefinition definition shape))
    {id : RegionId} {now : BindingGraph} (hnow : e.bearing id = some now) :
    ∃ later, e'.bearing id = some later ∧ now.bindings <:+ later.bindings ∧
      (later = now ↔
        ¬ ∃ s ∈ e'.index.lineage id, s ∉ e.index.lineage id ∧ s.definition.flags ≠ []) := by
  have hkeyed := h.keyed_arrival hindex
  obtain ⟨r, hr, rfl⟩ := Option.map_eq_some_iff.mp hnow
  obtain rfl := h.keyed id r hr
  have hne : r.id ≠ definition.id := by
    intro hid
    rw [hid, hnew] at hr
    cases hr
  have hr' : e'.index.get? r.id = some r := by
    rw [hindex, SortedMap.get?_insert_of_ne _ _ hne, hr]
  have hgrows : e.index.lineage r.id <:+ e'.index.lineage r.id := by
    rw [hindex]
    exact RegionIndex.lineage_insert hnew _ _
  refine ⟨e'.index.bindings r, by rw [bearing, hr', Option.map_some], ?_, ?_⟩
  · rw [RegionIndex.bindings_eq hr, RegionIndex.bindings_eq hr']
    exact RegionIndex.ownBindings_suffix hgrows
  · rw [RegionIndex.bindings_eq hr, RegionIndex.bindings_eq hr', BindingGraph.mk.injEq,
      RegionIndex.ownBindings_eq_iff hgrows (RegionIndex.nodup_lineage hkeyed _)]
    simp only [not_exists, not_and, not_not]

end Arrival

/-! ### What one operation does to what is kept -/

section Step

variable [ArtifactStore σ] {op : Operation δ σ}

theorem Effect.tidy (h : Effect e op e') (htidy : e.Tidy) : e'.Tidy := by
  cases h with
  | steady hkeyed hsteady hop =>
    refine ⟨hkeyed, fun {id graph} hgraph => ?_⟩
    rw [hsteady.bearing]
    rcases hsteady.cache id with hnone | hsame | ⟨-, hadded⟩
    · rw [hnone] at hgraph
      cases hgraph
    · exact htidy.kept (hsame ▸ hgraph)
    · exact ⟨graph, hadded ▸ hgraph, List.suffix_refl _⟩
  | load hkeyed hcache =>
    refine ⟨hkeyed, fun hgraph => ?_⟩
    rw [hcache] at hgraph
    cases hgraph
  | arrival hsaved hnew hindex hcache =>
    refine ⟨htidy.keyed_arrival hindex, fun {id graph} hgraph => ?_⟩
    rw [hcache, SortedMap.get?_erase] at hgraph
    split at hgraph
    · cases hgraph
    · obtain ⟨now, hnow, hsuffix⟩ := htidy.kept hgraph
      obtain ⟨later, hlater, hgrows, -⟩ := htidy.bearing_arrival hnew hindex hnow
      exact ⟨later, hlater, hsuffix.trans hgrows⟩

/-- **An operation lets get out of date what it overlooks, and nothing else.** What was out of date
stays so until it is forgotten. -/
theorem Effect.stale_iff (h : Effect e op e') (htidy : e.Tidy) (id : RegionId) :
    e'.Stale id ↔ (e.Stale id ∨ op.Overlooks e id) ∧ e'.Keeps id := by
  cases h with
  | steady hkeyed hsteady hop =>
    rw [hsteady.stale_iff]
    simp only [hop id, or_false]
  | load hkeyed hcache =>
    have hkeeps : ¬ e'.Keeps id := by
      rintro ⟨graph, hgraph⟩
      rw [hcache] at hgraph
      cases hgraph
    exact ⟨fun hid => absurd hid.keeps hkeeps, fun hid => absurd hid.2 hkeeps⟩
  | @arrival definition shape nodes mode _ hsaved hnew hindex hcache =>
    have hget : e'.cache.get? id = if id = definition.id then none else e.cache.get? id := by
      rw [hcache, SortedMap.get?_erase]
    by_cases hid : id = definition.id
    · rw [if_pos hid] at hget
      simp [Stale, Keeps, hget]
    rw [if_neg hid] at hget
    cases hcached : e.cache.get? id with
    | none => simp [Stale, Keeps, hget, hcached]
    | some graph =>
      obtain ⟨now, hnow, hsuffix⟩ := htidy.kept hcached
      obtain ⟨later, hlater, hgrows, hsame⟩ := htidy.bearing_arrival hnew hindex hnow
      have hoverlooks : (Operation.commitRegion definition shape nodes mode).Overlooks e id ↔
          later ≠ now := by
        rw [Ne, hsame, not_not, Operation.Overlooks,
          RegionIndex.replaceShape_of_get?_eq_none hnew, hindex]
        exact ⟨fun h => h.2.2.2.2, fun h => ⟨hsaved, hnew, hid, ⟨graph, hcached⟩, h⟩⟩
      have hkeeps : e'.Keeps id := ⟨graph, by rw [hget, hcached]⟩
      have hstale : e.Stale id ↔ now ≠ graph := by simp [Stale, hcached, hnow]
      have hstale' : e'.Stale id ↔ later ≠ graph := by simp [Stale, hget, hcached, hlater]
      rw [hstale', hstale, hoverlooks, and_iff_left hkeeps]
      exact BindingGraph.ne_iff_of_suffix hsuffix hgrows

end Step

/-! ### What a run does to what is kept -/

section Runs

variable [ArtifactStore σ] [DefinitionSource δ]

theorem Tidy.of_perform (h : e.Tidy) (op : Operation δ σ) : (e.perform op).2.Tidy :=
  (effect_perform h.keyed op).tidy h

theorem Tidy.after (h : e.Tidy) (ops : List (Operation δ σ)) : (e.after ops).Tidy := by
  induction ops generalizing e with
  | nil => exact h
  | cons op rest ih => exact ih (h.of_perform op)

end Runs

end Engine

end RegionPolicy
