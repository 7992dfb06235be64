import RegionPolicy.Proofs.Loading

/-!
# What regions have from above

When a region is settled, the region above it is complete: it has already got what it has from
further above. So what a region gets from the one above it adds up to all that is written along its
lineage, and to nothing else.

## Main definitions

* `firstPriority` — the first priority of some regions that is not zero.
* `Region.Inherits` — a region has what is written along a lineage.

## Main results

* `RegionIndex.Settled.climb_induction` — what is handed down holds all the way up.
* `RegionIndex.Settled.inherits` — a settled forest hands down what is written along its lineages.
* `Engine.inherits_reload` — so does every load.
-/

namespace RegionPolicy

/-- The first priority of some regions, as it is written, that is not zero; zero if there is
none. -/
def firstPriority (rs : List Region) : Int32 :=
  ((rs.map fun s => s.definition.priority).find? fun p => p ≠ 0).getD 0

/-- A region has what is written along a lineage: all people and groups, and the priority of the
nearest region that has one. -/
structure Region.Inherits (r : Region) (lineage : List Region) : Prop where
  /-- The owners of all regions of the lineage, and no others. -/
  owners : r.owners = .ofList (lineage.flatMap fun s => s.definition.owners)
  /-- The members of all regions of the lineage, and no others. -/
  members : r.members = .ofList (lineage.flatMap fun s => s.definition.members)
  /-- The groups of all regions of the lineage that are not blank, and no others. -/
  groups : r.groups = nonBlank (lineage.flatMap fun s => s.definition.groupIds)
  /-- The first priority that is not zero, from the region upwards. -/
  priority : r.priority = firstPriority lineage.reverse

namespace Region

/-! ### One region below another -/

variable {above : Option Region} {d : RegionDefinition} {shape : Shape} {x : String}

theorem mem_owners_under :
    x ∈ (under above d shape).owners ↔ x ∈ d.owners ∨ ∃ s ∈ above, x ∈ s.owners := by
  cases above <;> simp [under, ofDefinition]

theorem mem_members_under :
    x ∈ (under above d shape).members ↔ x ∈ d.members ∨ ∃ s ∈ above, x ∈ s.members := by
  cases above <;> simp [under, ofDefinition]

theorem mem_groups_under :
    x ∈ (under above d shape).groups ↔
      x ∈ (d.groupIds.filter fun s => !Text.isBlank s) ∨ ∃ s ∈ above, x ∈ s.groups := by
  cases above <;> simp [under, ofDefinition, nonBlank]

/-- A region that has no priority of its own has that of the region above. -/
theorem priority_under :
    (under above d shape).priority =
      if d.priority = 0 then (above.map Region.priority).getD 0 else d.priority := by
  cases above with
  | none =>
    split
    · rename_i hd
      exact hd
    · rfl
  | some s => rfl

end Region

@[simp] theorem firstPriority_nil : firstPriority [] = 0 := rfl

theorem firstPriority_cons (r : Region) (rs : List Region) :
    firstPriority (r :: rs) =
      if r.definition.priority = 0 then firstPriority rs else r.definition.priority := by
  by_cases h : r.definition.priority = 0 <;> simp [firstPriority, h]

namespace RegionIndex

variable {index : RegionIndex}

/-! ### All the way up -/

theorem Climb.exists_head {id : RegionId} {path : List Region} (h : index.Climb id path) :
    ∃ s rest, path = s :: rest ∧ index.get? id = some s := by
  cases h with
  | root hr hparent => exact ⟨_, _, rfl, hr⟩
  | up hr hparent hpath => exact ⟨_, _, rfl, hr⟩

/-- **What is handed down holds all the way up.** A property of a region and the way up from it
holds if it holds of roots, and passes from a region to those below. -/
theorem Settled.climb_induction (h : index.Settled) {motive : Region → List Region → Prop}
    (root : ∀ d shape children, let r := { Region.under none d shape with children }
      motive r [r])
    (up : ∀ above path d shape children, motive above path →
      let r := { Region.under (some above) d shape with children }
      motive r (r :: path))
    {id : RegionId} {path : List Region} (hpath : index.Climb id path) :
    ∀ r, index.get? id = some r → motive r path := by
  induction hpath with
  | @root id s hs hparent =>
    intro r hr
    obtain rfl := Option.some.inj (hs.symm.trans hr)
    have hunder := h id s hs
    rw [hparent, Option.bind_none] at hunder
    rw [hunder]
    exact root ..
  | @up id parent s path hs hparent hpath ih =>
    intro r hr
    obtain rfl := Option.some.inj (hs.symm.trans hr)
    obtain ⟨above, -, -, habove⟩ := hpath.exists_head
    have hunder := h id s hs
    rw [hparent, Option.bind_some, habove] at hunder
    rw [hunder]
    exact up _ _ _ _ _ (ih above habove)

/-- People who are handed down from a region to those below are those written along the way up. -/
theorem Settled.mem_people_iff (h : index.Settled) {people : Region → SortedSet String}
    (written : RegionDefinition → List String) {x : String}
    (hunder : ∀ above d shape children,
      x ∈ people { Region.under above d shape with children } ↔
        x ∈ written d ∨ ∃ s ∈ above, x ∈ people s)
    {id : RegionId} {r : Region} {path : List Region} (hpath : index.Climb id path)
    (hr : index.get? id = some r) :
    x ∈ people r ↔ x ∈ path.flatMap fun s => written s.definition := by
  refine h.climb_induction (motive := fun r path =>
    x ∈ people r ↔ x ∈ path.flatMap fun s => written s.definition) ?_ ?_ hpath r hr
  · intro d shape children
    refine (hunder none d shape children).trans ?_
    simp
  · intro above path d shape children ih
    refine (hunder (some above) d shape children).trans ?_
    simp [ih]

theorem Settled.priority_eq (h : index.Settled) {id : RegionId} {r : Region} {path : List Region}
    (hpath : index.Climb id path) (hr : index.get? id = some r) :
    r.priority = firstPriority path := by
  refine h.climb_induction (motive := fun r path => r.priority = firstPriority path)
    ?_ ?_ hpath r hr
  · intro d shape children
    refine Eq.trans (@Region.priority_under none d shape) ?_
    simp [firstPriority_cons]
  · intro above path d shape children ih
    refine Eq.trans (@Region.priority_under (some above) d shape) ?_
    simp [firstPriority_cons, ih]

/-- **A settled forest hands down what is written along its lineages.** -/
theorem Settled.inherits (h : index.Settled) (hforest : index.Forest) {id : RegionId} {r : Region}
    (hr : index.get? id = some r) : r.Inherits (index.lineage id) := by
  obtain ⟨path, hpath, -⟩ := hforest.climb hr
  have hlineage := hpath.lineage_eq hforest.keyed
  rw [hlineage]
  refine ⟨SortedSet.ext_mem fun x => ?_, SortedSet.ext_mem fun x => ?_,
    SortedSet.ext_mem fun x => ?_, ?_⟩
  · rw [h.mem_people_iff RegionDefinition.owners
      (fun _ _ _ _ => Region.mem_owners_under) hpath hr]
    simp
  · rw [h.mem_people_iff RegionDefinition.members
      (fun _ _ _ _ => Region.mem_members_under) hpath hr]
    simp
  · rw [h.mem_people_iff (fun d => d.groupIds.filter fun s => !Text.isBlank s)
      (fun _ _ _ _ => Region.mem_groups_under) hpath hr]
    simp [nonBlank, and_assoc, ← exists_and_right]
  · rw [List.reverse_reverse]
    exact h.priority_eq hpath hr

end RegionIndex

namespace Engine

variable {δ σ : Type} [ArtifactStore σ] [DefinitionSource δ] {e : Engine δ σ}
  {definitions : List RegionDefinition}

/-- **After a load a region has what is written along its lineage,** and nothing from elsewhere. -/
theorem inherits_reload (h : DefinitionSource.load e.source = .ok definitions) {id : RegionId}
    {r : Region} (hr : e.reload.2.index.get? id = some r) :
    r.Inherits (e.reload.2.index.lineage r.id) := by
  rw [index_reload h] at hr ⊢
  have hid : r.id = id := (forest_arrange _).keyed id r hr
  rw [hid]
  exact (settled_arrange _).inherits (forest_arrange _) hr

/-- An attic in a manor on an estate, with people and groups written at each of them and a priority
on top only, and an inn elsewhere. -/
def grounds : List RegionDefinition :=
  [{ id := ⟨"attic"⟩, parent := some ⟨"manor"⟩, members := ["Dan"], groupIds := ["staff", "owls"] },
    { id := ⟨"inn"⟩, owners := ["Eve"], members := ["Fay"], groupIds := ["guests"], priority := 9 },
    { id := ⟨"manor"⟩, parent := some ⟨"estate"⟩, owners := ["Cleo"], groupIds := ["family", " "] },
    { id := ⟨"estate"⟩, owners := ["Ann", "Cleo"], members := ["Bob"], groupIds := ["", "staff"],
      priority := 5 }]

/-- An engine that loads the grounds. -/
def groundsEngine : Engine MemorySource MemoryStore :=
  .start { definitions := grounds } {} (fun _ => none) 16 true

/-- The attic has what is written at all three of them, blank groups aside, and the priority of the
estate. -/
theorem inherits_reload_attic :
    DefinitionSource.load groundsEngine.source = .ok grounds ∧
      ∃ r, groundsEngine.reload.2.index.get? ⟨"attic"⟩ = some r ∧
        r.Inherits (groundsEngine.reload.2.index.lineage r.id) ∧
        r.owners.toList = ["Ann", "Cleo"] ∧ r.members.toList = ["Bob", "Dan"] ∧
        r.groups.toList = ["family", "owls", "staff"] ∧ r.priority = 5 := by
  have hload : DefinitionSource.load groundsEngine.source = .ok grounds := rfl
  have hattic : ⟨"attic"⟩ ∈ groundsEngine.reload.2.index.keys :=
    (mem_keys_reload hload).mpr (by decide)
  obtain ⟨r, hr⟩ := Option.isSome_iff_exists.mp (SortedMap.mem_keys_iff.mp hattic)
  have hinherits := inherits_reload hload hr
  have hid : r.id = ⟨"attic"⟩ := by
    rw [index_reload hload] at hr
    exact (forest_arrange _).keyed _ r hr
  refine ⟨hload, r, hr, hinherits, ?_⟩
  rw [hid] at hinherits
  rw [hinherits.owners, hinherits.members, hinherits.groups, hinherits.priority]
  decide +kernel

end Engine

end RegionPolicy
