import RegionPolicy.Proofs.Loading
import RegionPolicy.Proofs.StandardHandlers

/-!
# Diagnoses and decisions

A diagnosis names one binding of a flag as the one that counts: the last that the supplier has.
A decision is made by all bindings of the supplier, and one that turns the flag off is enough to
deny. The two agree on every flag that is bound once, and on every flag whose last binding turns it
off. They come apart just where the supplier first turns a flag off and in the end on again: then
the diagnosis says that the flag is on, and still it is denied.

## Main definitions

* `RegionDefinition.Wavers` — a definition turns a flag off and ends with another setting.

## Main results

* `RegionIndex.effective_bindings` — the binding that a diagnosis names.
* `Region.turnsOff_iff_getLast?_iff` — when the last binding speaks for all.
* `Engine.diagnosis_reload_iff` — after a load, when diagnoses and decisions agree.
-/

namespace RegionPolicy

/-! ### The last binding -/

/-- A definition has a binding that turns a flag off, and its last binding of the flag does not. -/
def RegionDefinition.Wavers (d : RegionDefinition) (key : FlagKey) : Prop :=
  (∃ b ∈ d.flags, b.key = key ∧ b.value = .boolean false) ∧
    ∃ b, d.flag? key = some b ∧ b.value ≠ .boolean false

namespace Region

variable {r : Region} {key : FlagKey}

theorem turnsOff_iff :
    r.turnsOff key = true ↔ ∃ b ∈ r.definition.flags, b.key = key ∧ b.value = .boolean false := by
  simp only [turnsOff, bindingsOf, ResolvedBinding.isOff, List.any_map, List.any_eq_true,
    List.mem_filter, Function.comp_apply, decide_eq_true_eq, and_assoc]

/-- Of the bindings of a flag in a region the last is the last of the definition. -/
theorem getLast?_bindingsOf (r : Region) (key : FlagKey) :
    (r.bindingsOf key).getLast? =
      (r.definition.flag? key).map fun b => ⟨r.id, r.priority, b⟩ := by
  rw [bindingsOf, List.getLast?_map, List.getLast?_filter, RegionDefinition.flag?]

theorem exists_flag?_of_turnsOff (h : r.turnsOff key) :
    ∃ b, r.definition.flag? key = some b := by
  obtain ⟨b, hb, hkey, -⟩ := turnsOff_iff.mp h
  have hsome : (r.definition.flags.reverse.find? fun b => b.key = key).isSome := by
    rw [List.find?_isSome]
    exact ⟨b, List.mem_reverse.mpr hb, by simpa using hkey⟩
  exact Option.isSome_iff_exists.mp hsome

/-- A last binding that turns the flag off is one that turns it off. -/
theorem turnsOff_of_flag? {b : FlagBinding} (h : r.definition.flag? key = some b)
    (hoff : b.value = .boolean false) : r.turnsOff key := by
  have hb := List.mem_reverse.mp (List.mem_of_find?_eq_some h)
  have hkey : b.key = key := by simpa using List.find?_some h
  exact turnsOff_iff.mpr ⟨b, hb, hkey, hoff⟩

/-- **The last binding speaks for all** just if the definition does not waver. -/
theorem turnsOff_iff_getLast?_iff :
    (r.turnsOff key ↔ ∃ b ∈ (r.bindingsOf key).getLast?, b.isOff) ↔
      ¬ r.definition.Wavers key := by
  have hlast : (∃ b ∈ (r.bindingsOf key).getLast?, b.isOff) ↔
      ∃ b, r.definition.flag? key = some b ∧ b.value = .boolean false := by
    rw [getLast?_bindingsOf]
    simp [ResolvedBinding.isOff]
  rw [hlast, RegionDefinition.Wavers, ← turnsOff_iff]
  constructor
  · rintro hagree ⟨hoff, b, hb, hon⟩
    obtain ⟨b', hb', hoff'⟩ := hagree.mp hoff
    obtain rfl := Option.some.inj (hb.symm.trans hb')
    exact hon hoff'
  · intro hsteady
    constructor
    · intro hoff
      obtain ⟨b, hb⟩ := exists_flag?_of_turnsOff hoff
      refine ⟨b, hb, ?_⟩
      by_contra hon
      exact hsteady ⟨hoff, b, hb, hon⟩
    · rintro ⟨b, hb, hoff⟩
      exact turnsOff_of_flag? hb hoff

end Region

/-! ### Diagnoses -/

namespace RegionIndex

variable {index : RegionIndex} {r : Region}

/-- **The binding that a diagnosis names** is the last that the supplier has. -/
theorem effective_bindings (hindex : index.Keyed Region.id) (hr : index.get? r.id = some r)
    (key : FlagKey) :
    (index.bindings r).effective key r.id =
      (index.supplier? r key).bind fun s => (s.bindingsOf key).getLast? := by
  rw [BindingGraph.effective, source_bindings hindex hr]
  cases hsupplier : index.supplier? r key with
  | none => rfl
  | some s =>
    have hs : s ∈ index.lineage r.id := mem_lineage_of_supplier? hr hsupplier
    rw [Option.map_some, Option.bind_some, Option.bind_some,
      ← filter_history_bindings hindex hr key hs, List.getLast?_filter]

end RegionIndex

/-- An inspection names the same binding. -/
theorem BindingGraph.effective_of_mem_resolutions {g : BindingGraph} {target : RegionId}
    {resolution : FlagResolution} (h : resolution ∈ g.resolutions target) :
    resolution.effective = g.effective resolution.key target := by
  obtain ⟨key, -, rfl⟩ := List.mem_map.mp h
  rfl

namespace Engine

variable {δ σ : Type} {e : Engine δ σ}

/-- A diagnosis of a region for which nothing wrong is kept. -/
theorem effective_of_fresh {r : Region} (hindex : e.index.Keyed Region.id)
    (hr : e.index.get? r.id = some r) (hfresh : e.Fresh r) (key : FlagKey) :
    (e.effective r key).1 =
      (e.index.supplier? r key).bind fun s => (s.bindingsOf key).getLast? := by
  rw [effective, ← RegionIndex.effective_bindings hindex hr, ← bindingsFor_eq_iff.mpr hfresh]

theorem effective_of_mem_inspect {r : Region} {resolution : FlagResolution}
    (h : resolution ∈ (e.inspect r).1) :
    resolution.effective = (e.effective r resolution.key).1 :=
  BindingGraph.effective_of_mem_resolutions h

/-- When the diagnosis of a flag that denies when it is off agrees with the decision on it. -/
theorem diagnosis_iff {c : Context} (hindex : e.index.Keyed Region.id)
    (hregion : e.index.get? c.region.id = some c.region) (hfresh : e.Fresh c.region)
    (hregistry : e.registry = .standard) {key : FlagKey}
    (hkey : key ∈ Registry.denyWhenFalseKeys) :
    ∃ verdict, (e.evaluate c key).1 = .ok verdict ∧
      ((verdict.isDenied ↔ ∃ b ∈ (e.effective c.region key).1, b.isOff) ↔
        ∀ s ∈ e.index.supplier? c.region key, ¬ s.definition.Wavers key) := by
  refine ⟨_, evaluate_denyWhenFalse hindex hregion hfresh hregistry hkey, ?_⟩
  rw [effective_of_fresh hindex hregion hfresh]
  cases e.index.supplier? c.region key with
  | none => simp [Verdict.isDenied]
  | some s =>
    have hdenied : ∀ off : Bool,
        (if off then .deny (key.id ++ ".denied") else .pass : Verdict).isDenied = off := by
      intro off
      cases off <;> rfl
    simp only [Option.any_some, Option.bind_some, hdenied, Region.turnsOff_iff_getLast?_iff,
      Option.mem_some_iff, forall_eq']

variable [DefinitionSource δ] [ArtifactStore σ] {definitions : List RegionDefinition}

/-- Right after a load nothing wrong is kept. -/
theorem fresh_reload (hload : DefinitionSource.load e.source = .ok definitions) (r : Region) :
    e.reload.2.Fresh r := by
  intro graph hgraph
  rw [reload_eq hload] at hgraph
  cases hgraph

theorem registry_reload (hload : DefinitionSource.load e.source = .ok definitions) :
    e.reload.2.registry = e.registry := by
  rw [reload_eq hload]
  rfl

theorem keyed_reload (hload : DefinitionSource.load e.source = .ok definitions) :
    e.reload.2.index.Keyed Region.id :=
  index_reload hload ▸ (forest_arrange _).keyed

/-- **After a load, diagnoses and decisions agree just where no supplier wavers.** A flag that
denies when it is off is denied for a region just if the binding that the diagnosis names turns it
off, unless its supplier turns it off first and in the end on again. An inspection of the region
names the same binding. -/
theorem diagnosis_reload_iff (hload : DefinitionSource.load e.source = .ok definitions)
    (hregistry : e.registry = .standard) {c : Context}
    (hregion : e.reload.2.index.get? c.region.id = some c.region) {key : FlagKey}
    (hkey : key ∈ Registry.denyWhenFalseKeys) :
    (∃ verdict, (e.reload.2.evaluate c key).1 = .ok verdict ∧
      ((verdict.isDenied ↔ ∃ b ∈ (e.reload.2.effective c.region key).1, b.isOff) ↔
        ∀ s ∈ e.reload.2.index.supplier? c.region key, ¬ s.definition.Wavers key)) ∧
      ∀ resolution ∈ (e.reload.2.inspect c.region).1, resolution.key = key →
        resolution.effective = (e.reload.2.effective c.region key).1 := by
  refine ⟨diagnosis_iff (keyed_reload hload) hregion (fresh_reload hload _)
    ((registry_reload hload).trans hregistry) hkey, ?_⟩
  rintro resolution hresolution rfl
  exact effective_of_mem_inspect hresolution

/-! ### A plot that is bound twice -/

/-- A plot on which building is turned on or off once for each of some settings. -/
def plot (settings : List Bool) : RegionDefinition :=
  { id := ⟨"plot"⟩, flags := settings.map fun on => .ofValue .build (.boolean on) }

/-- An engine that loads the plot. -/
def plotEngine (settings : List Bool) : Engine MemorySource MemoryStore :=
  .start { definitions := [plot settings] } {} .standard 16 true

theorem load_plotEngine (settings : List Bool) :
    DefinitionSource.load (plotEngine settings).source = .ok [plot settings] := rfl

theorem exists_get?_plot (settings : List Bool) :
    ∃ r, (plotEngine settings).reload.2.index.get? r.id = some r ∧
      r.definition = plot settings := by
  have hmem : ⟨"plot"⟩ ∈ (plotEngine settings).reload.2.index.keys := by
    rw [mem_keys_reload (load_plotEngine settings)]
    exact List.mem_dedup.mpr (List.mem_filter.mpr ⟨List.mem_cons_self, by decide⟩)
  obtain ⟨r, hr⟩ := Option.isSome_iff_exists.mp (SortedMap.mem_keys_iff.mp hmem)
  have hdefinition := definition_of_get?_reload (load_plotEngine settings) hr
  have hid := keyed_reload (load_plotEngine settings) _ r hr
  refine ⟨r, hid ▸ hr, (Option.some.inj ?_).symm⟩
  rw [← hdefinition]
  rfl

/-- A plot that is bound is its own supplier. -/
theorem supplier?_plot {settings : List Bool} (hne : settings ≠ []) {r : Region}
    (hr : (plotEngine settings).reload.2.index.get? r.id = some r)
    (hdefinition : r.definition = plot settings) :
    (plotEngine settings).reload.2.index.supplier? r .build = some r := by
  refine RegionIndex.supplier?_of_binds hr ?_
  obtain ⟨on, rest, rfl⟩ := List.exists_cons_of_ne_nil hne
  rw [Region.binds, hdefinition]
  rfl

/-- Where building is turned on and in the end off, diagnosis and decision agree. -/
theorem diagnosis_reload_iff_plot :
    DefinitionSource.load (plotEngine [true, false]).source = .ok [plot [true, false]] ∧
      (plotEngine [true, false]).registry = .standard ∧ .build ∈ Registry.denyWhenFalseKeys ∧
      ∃ r verdict, (plotEngine [true, false]).reload.2.index.get? r.id = some r ∧
        ((plotEngine [true, false]).reload.2.evaluate { region := r, action := .unknown }
          .build).1 = .ok verdict ∧
        (verdict.isDenied ↔
          ∃ b ∈ ((plotEngine [true, false]).reload.2.effective r .build).1, b.isOff) := by
  have hload := load_plotEngine [true, false]
  have hkey : FlagKey.build ∈ Registry.denyWhenFalseKeys := List.mem_cons_self
  obtain ⟨r, hr, hdefinition⟩ := exists_get?_plot [true, false]
  have hsteady : ¬ (plot [true, false]).Wavers .build := by
    rintro ⟨-, b, hb, hon⟩
    obtain rfl := Option.some.inj hb
    exact hon rfl
  obtain ⟨⟨verdict, hverdict, hagree⟩, -⟩ :=
    diagnosis_reload_iff hload rfl (c := { region := r, action := .unknown }) hr hkey
  refine ⟨hload, rfl, hkey, r, verdict, hr, hverdict, hagree.mpr ?_⟩
  intro s hs
  rw [supplier?_plot (List.cons_ne_nil true [false]) hr hdefinition] at hs
  obtain rfl := Option.some.inj hs
  exact hdefinition ▸ hsteady

/-- **Where building is turned off and in the end on, it is denied, and still the diagnosis says
that it is on.** -/
theorem denied_though_effective_on :
    (∃ count, (plotEngine [false, true]).reload.1 = .ok count) ∧
      (plotEngine [false, true]).registry = .standard ∧ .build ∈ Registry.denyWhenFalseKeys ∧
      ∃ r, (plotEngine [false, true]).reload.2.index.get? r.id = some r ∧
        ((plotEngine [false, true]).reload.2.evaluate { region := r, action := .unknown }
          .build).1 = .ok (.deny "build.denied") ∧
        ((plotEngine [false, true]).reload.2.effective r .build).1 =
          some ⟨r.id, r.priority, .ofValue .build (.boolean true)⟩ := by
  have hload := load_plotEngine [false, true]
  obtain ⟨r, hr, hdefinition⟩ := exists_get?_plot [false, true]
  have hkeyed := keyed_reload hload
  have hsupplier := supplier?_plot (List.cons_ne_nil false [true]) hr hdefinition
  refine ⟨⟨_, congrArg Prod.fst (reload_eq hload)⟩, rfl, List.mem_cons_self, r, hr, ?_, ?_⟩
  · have hoff : r.turnsOff .build :=
      Region.turnsOff_iff.mpr ⟨.ofValue .build (.boolean false), by
        rw [hdefinition]
        exact List.mem_cons_self, rfl, rfl⟩
    rw [evaluate_denyWhenFalse hkeyed hr (fresh_reload hload _) (registry_reload hload)
      List.mem_cons_self, hsupplier, Option.any_some, hoff]
    rfl
  · rw [effective_of_fresh hkeyed hr (fresh_reload hload r), hsupplier, Option.bind_some,
      Region.getLast?_bindingsOf, hdefinition]
    rfl

end Engine

end RegionPolicy
