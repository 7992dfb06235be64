import RegionPolicy.Proofs.Overlooking
import RegionPolicy.Proofs.Presence
import RegionPolicy.Proofs.Reachability

/-!
# How far forgetting reaches

What is forgotten with a region is found by going down from it, to the regions that it has for its
children; what bears on a region is found by going up, to the regions that are named as parents. A
load sets up both ways together. A commit that brings a region into force writes down the way up
only: the region names its parent, but its parent does not have it for a child.

So the two ways agree for the regions that were loaded, and a region that a commit brought into
force is forgotten with itself alone, until the next load. That is all there is to it: a region
never has a child that does not name it, so nothing is forgotten that need not be.

## Main definitions

* `RegionIndex.Linked` — children are parents read backwards, but for some regions.
* `Operation.Introduces`, `Operation.Loads` — a commit brings a region into force; a load succeeds.
* `Engine.Introduced` — a commit brought a region into force, and no load has succeeded since.
* `Engine.Alters` — what an operation does to the regions in force.

## Main results

* `RegionIndex.Linked.mem_descendants_iff` — which regions are forgotten with a region.
* `Engine.alters_perform`, `Engine.Alters.linked` — what one operation does to the links.
* `Engine.linked_after` — the links after a run.
* `Engine.invalidate_after_iff` — what is forgotten with a region after a run.
-/

namespace RegionPolicy

namespace RegionIndex

variable {index : RegionIndex}

/-! ### Going down and going up -/

/-- What lies below a region is what its children lead to. -/
theorem mem_descendants_iff {id target : RegionId} :
    target ∈ index.descendants id ↔
      SortedMap.Reaches (fun r child => child ∈ r.children) index id target := by
  simp only [descendants, SortedMap.mem_explore_iff, SortedSet.mem_toList]

/-- What lies above a region is what its parents lead to, as far as they are in force. -/
theorem mem_ids_lineage_iff (hindex : index.Keyed Region.id) {id target : RegionId} :
    id ∈ (index.lineage target).map Region.id ↔ index.contains id = true ∧
      SortedMap.Reaches (fun r parent => r.parent = some parent) index target id := by
  rw [← SortedMap.exists_mem_follow_iff hindex, lineage, List.map_reverse, List.mem_reverse,
    List.mem_map]

/-- Children are parents read backwards, but for the regions that are left out. A region that is not
left out has a parent that is in force and not left out either, if it has one at all. -/
structure Linked (index : RegionIndex) (out : RegionId → Prop) : Prop where
  /-- Every region stands under its own id. -/
  keyed : index.Keyed Region.id
  /-- The children of a region are those whose parent it is, without those left out. -/
  mem_children : ∀ {id r}, index.get? id = some r → ∀ child, child ∈ r.children ↔
    ¬ out child ∧ ∃ s, index.get? child = some s ∧ s.parent = some id
  /-- Nobody left out lies above anybody else. -/
  parent : ∀ {id r parent}, index.get? id = some r → ¬ out id → r.parent = some parent →
    index.contains parent = true ∧ ¬ out parent

namespace Linked

variable {out : RegionId → Prop}

theorem of_empty : (∅ : RegionIndex).Linked out where
  keyed := SortedMap.keyed_empty _
  mem_children h := by cases h
  parent h := by cases h

/-- In a forest nobody is left out. -/
theorem of_forest (h : index.Forest) : index.Linked fun _ => False where
  keyed := h.keyed
  mem_children hr child := by rw [h.mem_children hr, not_false_eq_true, true_and]
  parent hr _ hparent := ⟨h.contains_parent hr hparent, not_false⟩

theorem congr {out' : RegionId → Prop} (h : index.Linked out) (hout : ∀ id, out id ↔ out' id) :
    index.Linked out' := by
  rwa [show out' = out from funext fun id => propext (hout id).symm]

/-- Changes that keep ids and links keep the ways down and up. -/
theorem mapValues (h : index.Linked out) {f : RegionId → Region → Region}
    (hid : ∀ id r, (f id r).id = r.id) (hparent : ∀ id r, (f id r).parent = r.parent)
    (hchildren : ∀ id r, (f id r).children = r.children) : Linked (index.mapValues f) out where
  keyed := h.keyed.mapValues hid
  mem_children := by
    intro id r hr child
    rw [SortedMap.get?_mapValues] at hr
    obtain ⟨s, hs, rfl⟩ := Option.map_eq_some_iff.mp hr
    rw [hchildren, h.mem_children hs, SortedMap.get?_mapValues]
    simp only [Option.map_eq_some_iff, exists_exists_and_eq_and, hparent]
  parent := by
    intro id r parent hr hout hup
    rw [SortedMap.get?_mapValues] at hr
    obtain ⟨s, hs, rfl⟩ := Option.map_eq_some_iff.mp hr
    rw [hparent] at hup
    simpa only [SortedMap.contains, SortedMap.get?_mapValues, Option.isSome_map] using
      h.parent hs hout hup

theorem reshape (h : index.Linked out) (picked : Region → Bool) (shape : Shape) :
    (index.reshape picked shape).Linked out :=
  h.mapValues (fun _ r => by split <;> rfl) (fun _ r => by split <;> rfl)
    fun _ r => by split <;> rfl

/-- **A region that comes into force is left out,** until the next load. It has no children, and it
is nobody's child; whoever named it as its parent before is left out as well. -/
theorem insert (h : index.Linked out) {d : RegionDefinition} (hnew : index.get? d.id = none)
    (shape : Shape) :
    Linked (index.insert d.id (.ofDefinition d shape)) fun id => out id ∨ id = d.id where
  keyed := h.keyed.insert rfl
  mem_children := by
    intro id r hr child
    simp only [SortedMap.get?_insert] at hr ⊢
    by_cases hchild : child = d.id
    · -- the new region is no child, not even of a region that it names
      refine iff_of_false (fun hmem => ?_) fun hall => hall.1 (.inr hchild)
      split at hr
      · obtain rfl := Option.some.inj hr
        exact SortedSet.not_mem_empty _ hmem
      · obtain ⟨-, s, hs, -⟩ := (h.mem_children hr child).mp hmem
        rw [hchild, hnew] at hs
        cases hs
    rw [if_neg hchild]
    simp only [hchild, or_false]
    split at hr
    · rename_i hid
      obtain rfl := Option.some.inj hr
      refine iff_of_false (SortedSet.not_mem_empty _) ?_
      rintro ⟨hout, s, hs, hparent⟩
      obtain ⟨hcontains, -⟩ := h.parent hs hout hparent
      rw [hid, SortedMap.contains, hnew] at hcontains
      cases hcontains
    · exact h.mem_children hr child
  parent := by
    intro id r parent hr hout hup
    rw [not_or] at hout
    rw [SortedMap.get?_insert_of_ne _ _ hout.2] at hr
    obtain ⟨hcontains, hparent⟩ := h.parent hr hout.1 hup
    obtain ⟨s, hs⟩ := SortedMap.contains_iff.mp hcontains
    have hne : parent ≠ d.id := by
      rintro rfl
      rw [hnew] at hs
      cases hs
    refine ⟨SortedMap.contains_iff.mpr ⟨s, ?_⟩, not_or.mpr ⟨hparent, hne⟩⟩
    rw [SortedMap.get?_insert_of_ne _ _ hne, hs]

/-- Going down is going up backwards. -/
theorem reaches_up (h : index.Linked out) {id target : RegionId}
    (hdown : SortedMap.Reaches (fun r child => child ∈ r.children) index id target) :
    SortedMap.Reaches (fun r parent => r.parent = some parent) index target id := by
  induction hdown with
  | refl => exact .refl
  | tail _ hlink ih =>
    obtain ⟨r, hr, hchild⟩ := hlink
    obtain ⟨-, s, hs, hparent⟩ := (h.mem_children hr _).mp hchild
    exact .head ⟨s, hs, hparent⟩ ih

/-- Going up from a region that is not left out is going down backwards. -/
theorem reaches_down (h : index.Linked out) {id target : RegionId} (hout : ¬ out target)
    (hup : SortedMap.Reaches (fun r parent => r.parent = some parent) index target id) :
    SortedMap.Reaches (fun r child => child ∈ r.children) index id target := by
  induction hup using Relation.ReflTransGen.head_induction_on with
  | refl => exact .refl
  | head hlink _ ih =>
    obtain ⟨s, hs, hparent⟩ := hlink
    obtain ⟨hcontains, hparentOut⟩ := h.parent hs hout hparent
    obtain ⟨r, hr⟩ := SortedMap.contains_iff.mp hcontains
    exact (ih hparentOut).tail ⟨r, hr, (h.mem_children hr _).mpr ⟨hout, s, hs, hparent⟩⟩

/-- **Which regions lie below a region:** itself, and all that it lies above, without those left
out. -/
theorem mem_descendants_iff (h : index.Linked out) {id target : RegionId}
    (hid : index.contains id = true) :
    target ∈ index.descendants id ↔
      target = id ∨ ¬ out target ∧ id ∈ (index.lineage target).map Region.id := by
  rw [RegionIndex.mem_descendants_iff, mem_ids_lineage_iff h.keyed]
  constructor
  · intro hdown
    rcases hdown.cases_tail with rfl | ⟨_, _, r, hr, hchild⟩
    · exact .inl rfl
    · exact .inr ⟨((h.mem_children hr target).mp hchild).1, hid, h.reaches_up hdown⟩
  · rintro (rfl | ⟨hout, -, hup⟩)
    · exact .refl
    · exact h.reaches_down hout hup

end Linked

end RegionIndex

/-! ### What an operation does to the regions -/

section Operations

variable {δ σ : Type} [ArtifactStore σ]

/-- An operation brings a region into force: a commit for a region that was not in force. -/
def Operation.Introduces (e : Engine δ σ) (id : RegionId) : Operation δ σ → Prop
  | .commitRegion definition shape nodes mode =>
    (e.commitRegion definition shape nodes mode).1 = .ok () ∧
      e.index.get? definition.id = none ∧ id = definition.id
  | _ => False

variable [DefinitionSource δ]

/-- An operation loads the regions anew. -/
def Operation.Loads (e : Engine δ σ) : Operation δ σ → Prop
  | .reload => ∃ n, e.reload.1 = .ok n
  | _ => False

end Operations

namespace Engine

variable {δ σ : Type} {e : Engine δ σ} [ArtifactStore σ] [DefinitionSource δ]

/-- What an operation does to the regions in force. -/
inductive Alters (e : Engine δ σ) : Operation δ σ → RegionIndex → Prop where
  /-- All regions stay as they are. -/
  | stay {op : Operation δ σ} (hloads : ¬ op.Loads e) (hintroduces : ∀ id, ¬ op.Introduces e id) :
    Alters e op e.index
  /-- Some regions have a new shape. -/
  | reshape {op : Operation δ σ} (picked : Region → Bool) (shape : Shape) (hloads : ¬ op.Loads e)
    (hintroduces : ∀ id, ¬ op.Introduces e id) : Alters e op (e.index.reshape picked shape)
  /-- All regions are new. -/
  | load {index : RegionIndex} (hloads : Operation.reload.Loads e) (hforest : index.Forest) :
    Alters e .reload index
  /-- One more region comes into force. -/
  | insert {definition : RegionDefinition} {shape : Shape} {nodes : List Position}
    {mode : Option SelectionMode}
    (hsaved : (e.commitRegion definition shape nodes mode).1 = .ok ())
    (hnew : e.index.get? definition.id = none) :
    Alters e (.commitRegion definition shape nodes mode)
      (e.index.insert definition.id (.ofDefinition definition shape))

theorem alters_reload (e : Engine δ σ) : Alters e .reload e.reload.2.index := by
  cases hload : DefinitionSource.load e.source with
  | error failure =>
    have hfailed := reload_eq_error hload
    rw [hfailed]
    refine .stay ?_ fun _ => not_false
    rintro ⟨n, hn⟩
    rw [hfailed] at hn
    cases hn
  | ok definitions =>
    refine .load ⟨_, congrArg Prod.fst (reload_eq hload)⟩ ?_
    rw [index_reload hload]
    exact forest_arrange _

theorem alters_commitRegion (hkeyed : e.index.Keyed Region.id) (definition : RegionDefinition)
    (shape : Shape) (nodes : List Position) (mode : Option SelectionMode) :
    Alters e (.commitRegion definition shape nodes mode)
      (e.commitRegion definition shape nodes mode).2.index := by
  obtain ⟨store, ⟨failure, hfailed⟩ | hdone⟩ := e.commitRegion_cases definition shape nodes mode
  · rw [hfailed]
    refine .stay id fun target htarget => ?_
    have hsaved := htarget.1
    rw [hfailed] at hsaved
    cases hsaved
  · have hindex : (e.commitRegion definition shape nodes mode).2.index =
        e.index.replaceShape definition shape := by
      rw [hdone]
      rfl
    rw [hindex]
    cases hnew : e.index.get? definition.id with
    | some r =>
      rw [RegionIndex.replaceShape_of_get? hkeyed hnew shape]
      refine .reshape _ shape id fun target htarget => ?_
      have hnone := htarget.2.1
      rw [hnew] at hnone
      cases hnone
    | none =>
      rw [RegionIndex.replaceShape_of_get?_eq_none hnew]
      exact .insert (congrArg Prod.fst hdone) hnew

theorem alters_commitArtifact (e : Engine δ σ) (a : Artifact) (shape : Shape)
    (nodes : List Position) (mode : Option SelectionMode) :
    Alters e (.commitArtifact a shape nodes mode)
      (e.commitArtifact a shape nodes mode).2.index := by
  obtain ⟨store, ⟨failure, hfailed⟩ | hdone⟩ := e.commitArtifact_cases a shape nodes mode
  · rw [hfailed]
    exact .stay id fun _ => id
  · have hindex : (e.commitArtifact a shape nodes mode).2.index =
        e.index.reshape (fun r => r.usesArtifact a.id) shape := by
      rw [hdone]
      exact index_foldl_invalidate ..
    rw [hindex]
    exact .reshape _ shape id fun _ => id

/-- **Every operation leaves the regions as they are, reshapes some, loads them anew, or brings one
more into force.** -/
theorem alters_perform (hkeyed : e.index.Keyed Region.id) (op : Operation δ σ) :
    Alters e op (e.perform op).2.index := by
  have hstay : ∀ {op : Operation δ σ} {e' : Engine δ σ}, ¬ op.Loads e →
      (∀ id, ¬ op.Introduces e id) → Glances e e' → Alters e op e'.index :=
    fun hloads hintroduces h => h.index ▸ .stay hloads hintroduces
  cases op with
  | setSource | setStore | setRegistry | invalidate | invalidateAll | forget | drainFeeds =>
    exact .stay id fun _ => id
  | reload => exact e.alters_reload
  | commitRegion definition shape nodes mode =>
    exact alters_commitRegion hkeyed definition shape nodes mode
  | commitArtifact a shape nodes mode => exact e.alters_commitArtifact a shape nodes mode
  | evaluate target c key =>
    refine hstay id (fun _ => id) (glances_ask fun r => ?_)
    exact e.glances_evaluate (c.forRegion r) key
  | effective target key =>
    exact hstay id (fun _ => id) (glances_ask fun r => e.glances_bindingsFor r)
  | inspect target => exact hstay id (fun _ => id) (glances_ask fun r => e.glances_bindingsFor r)
  | transition request =>
    obtain ⟨cache, presence, decisions, hmoved⟩ := e.transition_snd request
    have hindex : (e.transition request).2.index = e.index := by rw [hmoved]
    show Alters e _ (e.transition request).2.index
    rw [hindex]
    exact .stay id fun _ => id

/-- **What one operation does to the links.** A load leaves nobody out; a commit that brings a
region into force leaves that region out in addition; nothing else makes a difference. -/
theorem Alters.linked {op : Operation δ σ} {index : RegionIndex} (h : Alters e op index)
    {out : RegionId → Prop} (hlinked : e.index.Linked out) :
    index.Linked fun id => out id ∧ ¬ op.Loads e ∨ op.Introduces e id := by
  cases h with
  | stay hloads hintroduces =>
    exact hlinked.congr fun id => by simp [hloads, hintroduces]
  | reshape picked shape hloads hintroduces =>
    exact (hlinked.reshape picked shape).congr fun id => by simp [hloads, hintroduces]
  | load hloads hforest =>
    refine (RegionIndex.Linked.of_forest hforest).congr fun id => ?_
    simp only [hloads, not_true_eq_false, and_false, false_or]
    rfl
  | @insert definition shape nodes mode hsaved hnew =>
    refine (hlinked.insert hnew shape).congr fun id => or_congr ?_ ?_
    · exact (and_iff_left (fun hloads => hloads)).symm
    · exact ⟨fun hid => ⟨hsaved, hnew, hid⟩, fun hid => hid.2.2⟩

/-! ### Runs -/

/-- A commit brought a region into force in a run, and no load has succeeded since. -/
def Introduced (e : Engine δ σ) (ops : List (Operation δ σ)) (id : RegionId) : Prop :=
  ∃ before op rest, ops = before ++ op :: rest ∧ op.Introduces (e.after before) id ∧
    ∀ more next, more ++ [next] <+: rest → ¬ next.Loads (e.after (before ++ op :: more))

theorem not_introduced_nil (id : RegionId) : ¬ e.Introduced [] id := by
  rintro ⟨before, op, rest, heq, -, -⟩
  exact List.append_ne_nil_of_right_ne_nil before (List.cons_ne_nil op rest) heq.symm

theorem introduced_concat_iff {ops : List (Operation δ σ)} {op : Operation δ σ} {id : RegionId} :
    e.Introduced (ops ++ [op]) id ↔
      e.Introduced ops id ∧ ¬ op.Loads (e.after ops) ∨ op.Introduces (e.after ops) id := by
  constructor
  · rintro ⟨before, first, rest, heq, hintroduces, hloads⟩
    rcases List.eq_nil_or_concat' rest with rfl | ⟨rest, last, rfl⟩
    · obtain ⟨rfl, hop⟩ := List.append_inj' heq rfl
      obtain rfl := List.singleton_inj.mp hop
      exact .inr hintroduces
    · rw [← List.cons_append, ← List.append_assoc] at heq
      obtain ⟨rfl, hop⟩ := List.append_inj' heq rfl
      obtain rfl := List.singleton_inj.mp hop
      refine .inl ⟨⟨before, first, rest, rfl, hintroduces, fun more next hmore => ?_⟩, ?_⟩
      · exact hloads more next (hmore.trans (List.prefix_append rest [op]))
      · exact hloads rest op (List.prefix_refl _)
  · rintro (⟨⟨before, first, rest, rfl, hintroduces, hloads⟩, hop⟩ | hintroduces)
    · refine ⟨before, first, rest ++ [op], by simp, hintroduces, fun more next hmore => ?_⟩
      rcases List.prefix_concat_iff.mp hmore with hwhole | hmore
      · obtain ⟨rfl, hnext⟩ := List.append_inj' hwhole rfl
        obtain rfl := List.singleton_inj.mp hnext
        exact hop
      · exact hloads more next hmore
    · refine ⟨ops, op, [], rfl, hintroduces, fun more next hmore => ?_⟩
      simp at hmore

/-- **The links after a run.** Left out are the regions that a commit brought into force since the
last load. The induction is on the run from its end, as it is the state that a run has reached that
tells which regions are new. -/
theorem linked_after (hempty : e.index = ∅) (ops : List (Operation δ σ)) :
    (e.after ops).index.Linked (e.Introduced ops) := by
  induction ops using List.reverseRecOn with
  | nil => exact hempty ▸ .of_empty
  | append_singleton ops op ih =>
    rw [after_append, after_singleton]
    exact ((alters_perform ih.keyed op).linked ih).congr fun id => introduced_concat_iff.symm

/-- **What is forgotten with a region.** In every state that an engine can reach, whatever the
region does not lie above is kept as it was. Whatever it lies above is forgotten, unless something
was kept for a region that a commit has brought into force since the last load, and that is another
one. -/
theorem invalidate_after_iff (source : δ) (store : σ) (registry : Registry) (buffer : Nat)
    (listening : Bool) (ops : List (Operation δ σ)) :
    let e₀ := start source store registry buffer listening
    let e := e₀.after ops
    ∀ id r, e.index.get? id = some r → ∀ target,
      (id ∉ (e.index.lineage target).map Region.id →
          (e.invalidate id).cache.get? target = e.cache.get? target) ∧
        (id ∈ (e.index.lineage target).map Region.id →
          ((e.invalidate id).cache.get? target = none ↔
            ¬ (e₀.Introduced ops target ∧ target ≠ id ∧ e.Keeps target))) := by
  intro e₀ e id r hr target
  have hlinked : e.index.Linked (e₀.Introduced ops) := linked_after rfl ops
  have hid : e.index.contains id = true := SortedMap.contains_of_get? hr
  have hself : id ∈ (e.index.lineage id).map Region.id :=
    (RegionIndex.mem_ids_lineage_iff hlinked.keyed).mpr ⟨hid, .refl⟩
  have hbelow : target ∈ e.index.descendants id ↔ _ := hlinked.mem_descendants_iff hid
  rw [get?_cache_invalidate]
  refine ⟨fun habove => if_neg fun hdown => ?_, fun habove => ?_⟩
  · rcases hbelow.mp hdown with rfl | ⟨-, hlineage⟩
    · exact habove hself
    · exact habove hlineage
  · have hkeeps : e.Keeps target ↔ e.cache.get? target ≠ none := Option.ne_none_iff_exists'.symm
    by_cases hdown : target ∈ e.index.descendants id
    · rw [if_pos hdown]
      refine iff_of_true rfl fun hout => ?_
      exact (hbelow.mp hdown).elim hout.2.1 fun h => h.1 hout.1
    · rw [if_neg hdown, hkeeps]
      have hout := hbelow.not.mp hdown
      simp only [not_or, not_and, habove, not_true_eq_false, imp_false, not_not] at hout
      simp [hout]

/-! ### The house and its town again

Loaded together, they are linked both ways. Brought into force one after the other, they are not. -/

section House

open RegionIndex

/-- The definitions of the house and of the town. -/
def estate : MemorySource := { definitions := [house.definition, town.definition] }

/-- An engine that is to load the house and the town. -/
abbrev unsurveyed : Engine MemorySource MemoryStore := start estate {} .standard 64 true

/-- The engine with both of them. -/
def surveyed : Engine MemorySource MemoryStore := unsurveyed.after [.reload]

theorem load_unsurveyed :
    DefinitionSource.load unsurveyed.source = .ok [house.definition, town.definition] := rfl

theorem lineage_surveyed :
    (surveyed.index.lineage house.id).map Region.id = [town.id, house.id] := by
  decide +kernel

theorem exists_surveyed (id : RegionId) (hid : id ∈ [house.id, town.id]) :
    ∃ r, surveyed.index.get? id = some r := by
  have hmem : id ∈ idsOf [house.definition, town.definition] := hid
  exact (exists_get?_reload_iff load_unsurveyed).mpr hmem

theorem keyed_surveyed : surveyed.index.Keyed Region.id :=
  (forest_reload load_unsurveyed).2.2.1.keyed

theorem perform_asking_surveyed {r : Region} (hr : surveyed.index.get? house.id = some r) :
    (surveyed.perform asking).2 =
      (surveyed.evaluate (.forRegion { region := house, action := .unknown } r) .build).2 := by
  show (surveyed.ask house.id _).2 = _
  rw [ask, hr]
  rfl

/-- The engine with both of them, once the house was looked at. -/
abbrev visited : Engine MemorySource MemoryStore := unsurveyed.after [.reload, asking]

theorem visited_eq : visited = (surveyed.perform asking).2 := rfl

theorem index_visited : visited.index = surveyed.index := by
  rw [visited_eq]
  exact (looks_ask keyed_surveyed fun r hr =>
    looks_evaluate (c := Context.forRegion _ r) hr .build).index

theorem keeps_visited : visited.Keeps house.id := by
  obtain ⟨r, hr⟩ := exists_surveyed house.id List.mem_cons_self
  have hentry : surveyed.registry .build = some ⟨.boolean, Handler.denyWhenFalse⟩ := rfl
  have hnone : surveyed.cache.get? r.id = none := rfl
  refine ⟨surveyed.index.bindings r, ?_⟩
  rw [visited_eq, perform_asking_surveyed hr, cache_evaluate hentry, Context.forRegion, bindingsFor,
    hnone, ← keyed_surveyed _ _ hr]
  exact SortedMap.get?_insert_self ..

theorem not_introduced_visited (id : RegionId) : ¬ unsurveyed.Introduced [.reload, asking] id := by
  rw [show [.reload, asking] = [] ++ [.reload] ++ [asking] from rfl, introduced_concat_iff,
    introduced_concat_iff]
  rintro (⟨⟨hnil, -⟩ | hreload, -⟩ | hasking)
  · exact not_introduced_nil id hnil
  · exact hreload
  · exact hasking

/-- Once both are loaded and the house was looked at, the house is forgotten with the town. -/
theorem invalidate_after_iff_surveyed :
    visited.Keeps house.id ∧ town.id ∈ (visited.index.lineage house.id).map Region.id ∧
      (visited.invalidate town.id).cache.get? house.id = none := by
  have habove : town.id ∈ (visited.index.lineage house.id).map Region.id := by
    rw [index_visited, lineage_surveyed]
    exact List.mem_cons_self
  obtain ⟨r, hr⟩ := exists_surveyed town.id (by decide)
  have hr' : visited.index.get? town.id = some r := index_visited ▸ hr
  have hiff := (invalidate_after_iff estate ({} : MemoryStore) .standard 64 true [.reload, asking]
    town.id r hr' house.id).2 habove
  exact ⟨keeps_visited, habove, hiff.mpr fun hkept => not_introduced_visited _ hkept.1⟩

/-- **A region that a commit has brought into force is not forgotten with a region above it.** -/
theorem keeps_invalidate_founded :
    (∃ r, founded.index.get? town.id = some r) ∧
      town.id ∈ (founded.index.lineage house.id).map Region.id ∧
      (founded.invalidate town.id).cache.get? house.id = some ⟨[]⟩ := by
  have htown : townIndex.get? town.id = some town := by rfl
  have hdescendants : townIndex.descendants town.id = [town.id] := by cbv
  refine ⟨⟨town, by rw [index_founded, htown]⟩, ?_, ?_⟩
  · rw [index_founded, lineage_house]
    exact List.mem_cons_self
  · rw [get?_cache_invalidate, index_founded, hdescendants, if_neg (by decide), get?_cache_founded]

end House

end Engine

end RegionPolicy
