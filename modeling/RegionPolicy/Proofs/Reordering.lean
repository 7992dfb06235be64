import RegionPolicy.Proofs.Reachability
import RegionPolicy.Proofs.Slots

/-!
# The order of definitions

Regions are settled in the order in which their definitions come up, and the order can matter in
three ways: of two definitions with one id the last counts, a circle among the parents is cut at a
place that depends on who comes up first, and artifacts come up one after the other at a store that
they write to. Where the ids differ, the parents that are named make no circle, and artifacts that
share a place agree, nothing of that is left.

For arranging, the reason is that without circles every region gets the parent that its definition
names, provided there is a region of that name. That and the definitions determine an index, by
induction on the way up to a root, and no order is mentioned.

## Main definitions

* `Uncircled` — no way along the parents that are named comes back.
* `Placed` — the regions have the parents that their definitions name.
* `Names` — a definition names a region as the one above.

## Main results

* `Placed.settleChain` — without circles every region gets the parent that it names.
* `Grown.eq_of_placed` — only one index has all regions and the parents that they name.
* `arrange_perm` — the order of the drafts does not matter.
* `Engine.reload_perm` — the order of the definitions does not matter.
-/

namespace RegionPolicy

/-! ### Regions with the parents that they name -/

/-- No way along the parents that the drafts name comes back to where it began. -/
def Uncircled (drafts : SortedMap RegionId Draft) : Prop :=
  ∀ id, ¬ Relation.TransGen (drafts.Leads fun d k => d.definition.parent = some k) id id

/-- Every region comes from a draft, and has the parent that its definition names if there is a
draft of it. -/
structure Placed (drafts : SortedMap RegionId Draft) (index : RegionIndex) : Prop where
  /-- A region comes from a draft. -/
  contains_draft : ∀ {id r}, index.get? id = some r → drafts.contains id = true
  /-- It has the parent that it names, if there is a draft of it. -/
  parent_eq : ∀ {id r}, index.get? id = some r →
    r.parent = r.definition.parent.filter drafts.contains

namespace Placed

variable {drafts : SortedMap RegionId Draft} {index : RegionIndex}

theorem empty (drafts : SortedMap RegionId Draft) : Placed drafts ∅ where
  contains_draft h := nomatch h
  parent_eq h := nomatch h

/-- A draft can be settled once the parent that it names is. -/
theorem settle (h : Placed drafts index) {d : Draft} (hd : drafts.contains d.id = true)
    (habove : ∀ parent, d.definition.parent = some parent → drafts.contains parent = true →
      ∃ r, index.get? parent = some r) : Placed drafts (settle d index) where
  contains_draft := by
    intro id r hr
    rw [get?_settle] at hr
    split at hr
    · rename_i hid
      exact hid ▸ hd
    · exact h.contains_draft hr
  parent_eq := by
    intro id r hr
    rw [get?_settle] at hr
    split at hr
    · rw [← Option.some.inj hr, Region.parent_under, Region.definition_under]
      cases hparent : d.definition.parent with
      | none => rfl
      | some parent =>
        rw [Option.bind_some, Option.filter_some]
        cases hcontains : drafts.contains parent with
        | true =>
          obtain ⟨s, hs⟩ := habove parent hparent hcontains
          rw [hs]
          rfl
        | false =>
          have hnone : index.get? parent = none := by
            by_contra hne
            obtain ⟨s, hs⟩ := Option.ne_none_iff_exists'.mp hne
            rw [h.contains_draft hs] at hcontains
            cases hcontains
          rw [hnone]
          rfl
    · exact h.parent_eq hr

/-- **Settling a chain.** The walk goes on in a part of the drafts, from which those that it has
passed are taken out. Since there is no circle, none of those is ever named again. -/
theorem foldr_settle_follow (hdrafts : drafts.Keyed Draft.id) (hcircle : Uncircled drafts)
    (h : Placed drafts index) (m : SortedMap RegionId Draft) (start : Option RegionId)
    (hm : ∀ k d, m.get? k = some d → drafts.get? k = some d)
    (hleft : ∀ j, start = some j → ∀ k,
      drafts.Reaches (fun d k => d.definition.parent = some k) j k → drafts.contains k = true →
        m.contains k = true) :
    Placed drafts ((m.follow
      (fun d => d.definition.parent.filter fun id => !index.contains id) start).foldr
        RegionPolicy.settle index) := by
  induction m, start using SortedMap.follow_induction
    (fun d : Draft => d.definition.parent.filter fun id => !index.contains id) with
  | nowhere m => simpa using h
  | missing m k hk => simpa [SortedMap.follow_of_get?_eq_none hk] using h
  | found m k d hk ih =>
    have hd : drafts.get? k = some d := hm k d hk
    have hid : d.id = k := hdrafts k d hd
    rw [SortedMap.follow_of_get?_eq_some hk, List.foldr_cons]
    have hleft' : ∀ j, d.definition.parent = some j → ∀ i,
        drafts.Reaches (fun d k => d.definition.parent = some k) j i → drafts.contains i = true →
          (m.erase k).contains i = true := by
      intro j hj i hreach hi
      have hlink : drafts.Leads (fun d k => d.definition.parent = some k) k j := ⟨d, hd, hj⟩
      have hik : i ≠ k := by
        rintro rfl
        exact hcircle i (.head' hlink hreach)
      rw [SortedMap.contains, SortedMap.get?_erase_of_ne m hik]
      exact hleft k rfl i (.head hlink hreach) hi
    refine settle (ih ?_ ?_) ?_ ?_
    · exact fun j e he => hm j e (SortedMap.get?_of_get?_erase he)
    · intro j hj
      exact hleft' j (Option.filter_eq_some_iff.mp hj).1
    · rw [hid]
      exact SortedMap.contains_of_get? hd
    · intro parent hparent hcontains
      refine Grown.exists_get?_foldr_settle ?_
      cases hsettled : index.get? parent with
      | some r => exact .inr ⟨r, rfl⟩
      | none =>
        obtain ⟨e, he⟩ := SortedMap.contains_iff.mp (hleft' parent hparent parent .refl hcontains)
        have hnext : (d.definition.parent.filter fun id => !index.contains id) = some parent := by
          simp [hparent, SortedMap.contains, hsettled]
        have heid : e.id = parent :=
          hdrafts parent e (hm parent e (SortedMap.get?_of_get?_erase he))
        rw [hnext, SortedMap.follow_of_get?_eq_some he, List.map_cons, heid]
        exact .inl List.mem_cons_self

/-- **Without circles every region gets the parent that it names.** -/
theorem settleChain (hdrafts : drafts.Keyed Draft.id) (hcircle : Uncircled drafts)
    (h : Placed drafts index) (id : RegionId) : Placed drafts (settleChain drafts index id) :=
  foldr_settle_follow hdrafts hcircle h drafts _ (fun _ _ hd => hd) fun _ _ _ _ hk => hk

theorem foldl_settleChain (hdrafts : drafts.Keyed Draft.id) (hcircle : Uncircled drafts)
    (h : Placed drafts index) (ids : List RegionId) :
    Placed drafts (ids.foldl (RegionPolicy.settleChain drafts) index) := by
  induction ids generalizing index with
  | nil => exact h
  | cons id rest ih => exact ih (h.settleChain hdrafts hcircle id)

end Placed

/-! ### What has grown is determined -/

namespace Grown

variable {drafts : SortedMap RegionId Draft} {index index' : RegionIndex}

/-- A region is the same in two indexes if the region above it is. -/
theorem get?_eq_of_bind_eq (h : Grown drafts index) (h' : Grown drafts index')
    (hplaced : Placed drafts index) (hplaced' : Placed drafts index') {id : RegionId}
    {r r' : Region} (hr : index.get? id = some r) (hr' : index'.get? id = some r')
    (habove : r.parent.bind index.get? = r.parent.bind index'.get?) : r = r' := by
  obtain ⟨d, hd, hdefinition, hshape⟩ := h.exists_draft hr
  obtain ⟨d', hd', hdefinition', hshape'⟩ := h'.exists_draft hr'
  obtain rfl : d = d' := Option.some.inj (hd.symm.trans hd')
  have hparent : r.parent = r'.parent := by
    rw [hplaced.parent_eq hr, hplaced'.parent_eq hr', hdefinition, hdefinition']
  rw [h.eq_under hr, h'.eq_under hr', habove, hparent, hdefinition, hdefinition', hshape, hshape']

/-- **Only one index has all regions and the parents that they name.** The induction goes down from
the roots. -/
theorem eq_of_placed (h : Grown drafts index) (h' : Grown drafts index')
    (hplaced : Placed drafts index) (hplaced' : Placed drafts index')
    (hids : ∀ id, (∃ r, index.get? id = some r) ↔ ∃ r, index'.get? id = some r) :
    index = index' := by
  have hclimb : ∀ {id path}, index.Climb id path → index.get? id = index'.get? id := by
    intro id path hpath
    induction hpath with
    | @root id r hr hparent =>
      obtain ⟨r', hr'⟩ := (hids id).mp ⟨r, hr⟩
      rw [hr, hr', get?_eq_of_bind_eq h h' hplaced hplaced' hr hr' (by rw [hparent]; rfl)]
    | @up id parent r path hr hparent hpath ih =>
      obtain ⟨r', hr'⟩ := (hids id).mp ⟨r, hr⟩
      rw [hr, hr', get?_eq_of_bind_eq h h' hplaced hplaced' hr hr' (by rw [hparent]; exact ih)]
  refine SortedMap.ext_get? fun id => ?_
  by_cases hid : ∃ r, index.get? id = some r
  · obtain ⟨r, hr⟩ := hid
    obtain ⟨path, hpath⟩ := h.exists_climb hr
    exact hclimb hpath
  · have hid' : ¬ ∃ r, index'.get? id = some r := fun h => hid ((hids id).mpr h)
    rw [Option.eq_none_iff_forall_ne_some.mpr fun r hr => hid ⟨r, hr⟩,
      Option.eq_none_iff_forall_ne_some.mpr fun r hr => hid' ⟨r, hr⟩]

end Grown

/-! ### Arranging -/

/-- The regions of some drafts, settled one after the other, before they know their children. -/
def settledFrom (drafts : List Draft) : RegionIndex :=
  (drafts.map Draft.id).foldl
    (settleChain (SortedMap.ofList (drafts.map fun d => (d.id, d)))) ∅

theorem grown_settledFrom (drafts : List Draft) :
    Grown (SortedMap.ofList (drafts.map fun d => (d.id, d))) (settledFrom drafts) :=
  (grown_foldl_settleChain (keyed_ofList_drafts drafts)
    (fun _ hid => exists_get?_ofList_drafts hid) .empty).1

theorem exists_get?_settledFrom_iff {drafts : List Draft} {id : RegionId} :
    (∃ r, (settledFrom drafts).get? id = some r) ↔ id ∈ drafts.map Draft.id := by
  constructor
  · rintro ⟨r, hr⟩
    obtain ⟨d, hd, -⟩ := (grown_settledFrom drafts).exists_draft hr
    have hid := keyed_ofList_drafts drafts id d hd
    rw [get?_ofList_drafts] at hd
    exact hid ▸ List.mem_map_of_mem (List.mem_filter.mp (List.mem_of_getLast? hd)).1
  · intro hid
    exact (grown_foldl_settleChain (keyed_ofList_drafts drafts)
      (fun _ hid => exists_get?_ofList_drafts hid) .empty).2 id (.inl hid)

/-- **The order of the drafts does not matter,** if their ids differ and the parents that they name
make no circle. -/
theorem arrange_perm {drafts drafts' : List Draft} (hperm : drafts.Perm drafts')
    (hids : (drafts.map Draft.id).Nodup)
    (hcircle : Uncircled (SortedMap.ofList (drafts.map fun d => (d.id, d)))) :
    arrange drafts = arrange drafts' := by
  have hmap : SortedMap.ofList (drafts.map fun d => (d.id, d)) =
      SortedMap.ofList (drafts'.map fun d => (d.id, d)) := by
    refine SortedMap.ofList_perm (hperm.map _) ?_
    rw [List.map_map]
    exact hids
  have hsettled : settledFrom drafts = settledFrom drafts' := by
    have hgrown := grown_settledFrom drafts
    have hgrown' := hmap ▸ grown_settledFrom drafts'
    have hplaced : Placed _ (settledFrom drafts) :=
      Placed.foldl_settleChain (keyed_ofList_drafts drafts) hcircle (.empty _) _
    have hplaced' : Placed _ (settledFrom drafts') :=
      Placed.foldl_settleChain (keyed_ofList_drafts drafts') (hmap ▸ hcircle) (.empty _) _
    refine hgrown.eq_of_placed hgrown' hplaced (hmap ▸ hplaced') fun id => ?_
    rw [exists_get?_settledFrom_iff, exists_get?_settledFrom_iff]
    exact (hperm.map Draft.id).mem_iff
  show linkChildren (settledFrom drafts) = linkChildren (settledFrom drafts')
  rw [hsettled]

/-! ### Loads -/

/-- A definition names a region as the one above. Definitions with blank ids do not count. -/
def Names (definitions : List RegionDefinition) (child parent : RegionId) : Prop :=
  ∃ d ∈ definitions, d.id.isBlank = false ∧ d.id = child ∧ d.parent = some parent

namespace Engine

open ArtifactStore TextStore SlotStore

variable {δ σ : Type} [ArtifactStore σ] {definitions definitions' : List RegionDefinition}

/-- The links between drafts are those between their definitions. -/
theorem names_of_leads {s : σ} {child parent : RegionId}
    (h : (SortedMap.ofList ((draftsOf s definitions).1.map fun d => (d.id, d))).Leads
      (fun d k => d.definition.parent = some k) child parent) : Names definitions child parent := by
  obtain ⟨d, hd, hparent⟩ := h
  have hid : d.id = child := keyed_ofList_drafts _ child d hd
  rw [get?_ofList_drafts] at hd
  have hmem : d.definition ∈ definitions.filter fun d => !d.id.isBlank := by
    rw [← definitions_draftsOf s]
    exact List.mem_map_of_mem (List.mem_filter.mp (List.mem_of_getLast? hd)).1
  rw [List.mem_filter, Bool.not_eq_true'] at hmem
  exact ⟨d.definition, hmem.1, hmem.2, hid, hparent⟩

variable [TextStore σ] [SlotStore σ] [DefinitionSource δ] {e : Engine δ σ}

/-- **The order of the definitions does not matter.** If the ids that are not blank differ, the
parents that are named make no circle, and artifacts that share a place have the same settings, then
whatever is stored and whatever cannot be read or written, loading the definitions in another order
ends with the same regions, the same count and the same slots. -/
theorem reload_perm {source' : δ} (hload : DefinitionSource.load e.source = .ok definitions)
    (hload' : DefinitionSource.load source' = .ok definitions')
    (hperm : definitions.Perm definitions')
    (hids : ((definitions.map RegionDefinition.id).filter fun id => !id.isBlank).Nodup)
    (hcircle : ∀ id, ¬ Relation.TransGen (Names definitions) id id)
    (h : Agreeing σ (artifactsOf definitions)) :
    ∃ count, e.reload.1 = .ok count ∧ { e with source := source' }.reload.1 = .ok count ∧
      { e with source := source' }.reload.2.index = e.reload.2.index ∧
      slot { e with source := source' }.reload.2.store = slot e.reload.2.store := by
  have hload' : DefinitionSource.load { e with source := source' }.source = .ok definitions' :=
    hload'
  have hartifacts : (artifactsOf definitions).Perm (artifactsOf definitions') :=
    (hperm.filter _).filterMap _
  have h' : Agreeing σ (artifactsOf definitions') := h.mono fun a ha => hartifacts.mem_iff.mpr ha
  have hdrafts : (draftsOf e.store definitions).1.Perm (draftsOf e.store definitions').1 := by
    rw [drafts_draftsOf h, drafts_draftsOf h']
    exact (hperm.filter _).map _
  have harrange :
      arrange (draftsOf e.store definitions).1 = arrange (draftsOf e.store definitions').1 := by
    refine arrange_perm hdrafts ?_ fun id hid => hcircle id ?_
    · rw [map_id_draftsOf]
      exact hids
    · exact Relation.TransGen.mono (fun _ _ => names_of_leads) _ _ hid
  refine ⟨(arrange (draftsOf e.store definitions).1).size, ?_, ?_, ?_, ?_⟩
  · rw [reload_eq hload]
  · rw [reload_eq hload', harrange]
  · rw [index_reload hload', index_reload hload, harrange]
  · rw [store_reload hload', store_reload hload, store_draftsOf, store_draftsOf]
    exact (slot_foldl_prepare_perm hartifacts h e.store).symm

/-- In the sky only the clouds name a region above them. -/
theorem names_skyRegions {child parent : RegionId} (h : Names skyRegions child parent) :
    child = ⟨"clouds"⟩ ∧ parent = ⟨"sky"⟩ := by
  obtain ⟨d, hd, -, rfl, hparent⟩ := h
  rcases List.mem_cons.mp hd with rfl | hd
  · cases hparent
  · obtain rfl := List.mem_singleton.mp hd
    exact ⟨rfl, (Option.some.inj hparent).symm⟩

theorem not_transGen_names_skyRegions (id : RegionId) :
    ¬ Relation.TransGen (Names skyRegions) id id := by
  intro h
  obtain ⟨_, hfirst, -⟩ := Relation.TransGen.head'_iff.mp h
  obtain ⟨_, -, hlast⟩ := Relation.TransGen.tail'_iff.mp h
  have hid : (⟨"clouds"⟩ : RegionId) = ⟨"sky"⟩ :=
    (names_skyRegions hfirst).1.symm.trans (names_skyRegions hlast).2
  exact absurd hid (by decide)

/-- A source where the clouds come before the sky. -/
def turnedSky : MemorySource := { definitions := skyRegions.reverse }

theorem reload_perm_sky :
    skyRegions.Perm skyRegions.reverse ∧
      { skyEngine with source := turnedSky }.reload.2.index = skyEngine.reload.2.index ∧
      { skyEngine with source := turnedSky }.reload.2.store = skyEngine.reload.2.store := by
  have hload : DefinitionSource.load skyEngine.source = .ok skyRegions := rfl
  have hload' : DefinitionSource.load turnedSky = .ok skyRegions.reverse := rfl
  have hperm : skyRegions.Perm skyRegions.reverse := skyRegions.reverse_perm.symm
  have hids : ((skyRegions.map RegionDefinition.id).filter fun id => !id.isBlank).Nodup := by decide
  obtain ⟨count, -, -, hindex, hslot⟩ :=
    reload_perm hload hload' hperm hids not_transGen_names_skyRegions agreeing_skyRegions
  exact ⟨hperm, hindex, MemoryStore.eq_of_slot_eq hslot⟩

end Engine

end RegionPolicy
