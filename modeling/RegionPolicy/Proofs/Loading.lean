import Mathlib.Data.List.Dedup
import RegionPolicy.Engine.Commit
import RegionPolicy.Proofs.Forest
import RegionPolicy.Store.Memory

/-!
# Loading regions

A load succeeds whenever the definitions can be read, and puts the arrangement of their drafts into
force. The shapes come from the store, and whatever the store does, the definitions are not touched
by it: what is known of arrangements is known of the regions in force after a load.

## Main definitions

* `idsOf` — the ids under which regions come into force.

## Main results

* `Engine.definitions_draftsOf` — drafts keep their definitions, in their order.
* `Engine.reload_eq` — what a load does.
* `Engine.forest_reload` — a load ends with a forest of the ids that are not blank.
-/

namespace RegionPolicy

/-- The different ids of some definitions, without those that are blank. -/
def idsOf (definitions : List RegionDefinition) : List RegionId :=
  ((definitions.map RegionDefinition.id).filter fun id => !id.isBlank).dedup

theorem nodup_idsOf (definitions : List RegionDefinition) : (idsOf definitions).Nodup :=
  List.nodup_dedup _

namespace Engine

variable {δ σ : Type} [ArtifactStore σ]

/-! ### Drafts -/

/-- Drafts keep their definitions, in their order. -/
theorem definitions_draftsOf (s : σ) (definitions : List RegionDefinition) :
    (draftsOf s definitions).1.map Draft.definition =
      definitions.filter fun d => !d.id.isBlank := by
  induction definitions generalizing s with
  | nil => rfl
  | cons d rest ih =>
    rw [draftsOf, List.filter_cons]
    split
    · rename_i hblank
      rw [ih, hblank]
      rfl
    · rename_i hblank
      simp [hblank, ih]

/-- The ids of the drafts are those of the definitions, in their order. -/
theorem map_id_draftsOf (s : σ) (definitions : List RegionDefinition) :
    (draftsOf s definitions).1.map Draft.id =
      (definitions.map RegionDefinition.id).filter fun id => !id.isBlank := by
  have hids : (draftsOf s definitions).1.map Draft.id =
      (definitions.filter fun d => !d.id.isBlank).map RegionDefinition.id := by
    rw [← definitions_draftsOf s, List.map_map]
    rfl
  rw [hids, List.filter_map]
  rfl

theorem mem_ids_draftsOf {s : σ} {definitions : List RegionDefinition} {id : RegionId} :
    id ∈ (draftsOf s definitions).1.map Draft.id ↔ id ∈ idsOf definitions := by
  rw [map_id_draftsOf, idsOf, List.mem_dedup]

/-- Of the drafts with an id the last one has the last definition with that id. -/
theorem getLast?_draftsOf {s : σ} {definitions : List RegionDefinition} {id : RegionId}
    (hid : id ∈ idsOf definitions) :
    (((draftsOf s definitions).1.filter fun d => d.id = id).getLast?).map Draft.definition =
      (definitions.filter fun d => d.id = id).getLast? := by
  have hblank : id.isBlank = false := by
    have hmem := List.mem_dedup.mp hid
    simpa using (List.mem_filter.mp hmem).2
  have hsame : ((definitions.filter fun d => !d.id.isBlank).filter fun d => d.id = id) =
      definitions.filter fun d => d.id = id := by
    rw [List.filter_filter]
    refine List.filter_congr fun d _ => ?_
    by_cases hd : d.id = id <;> simp [hd, hblank]
  rw [← List.getLast?_map, ← hsame, ← definitions_draftsOf s, List.filter_map]
  rfl

/-! ### The regions in force -/

variable [DefinitionSource δ] {e : Engine δ σ} {definitions : List RegionDefinition}

/-- A load of definitions that cannot be read fails and changes nothing. -/
theorem reload_eq_error {failure : StoreError}
    (h : DefinitionSource.load e.source = .error failure) : e.reload = (.error failure, e) := by
  rw [reload, h]

/-- What a load does. -/
theorem reload_eq (h : DefinitionSource.load e.source = .ok definitions) :
    e.reload =
      (.ok (arrange (draftsOf e.store definitions).1).size,
        { e with
          store := (draftsOf e.store definitions).2
          index := arrange (draftsOf e.store definitions).1 }.invalidateAll) := by
  rw [reload, h]

theorem index_reload (h : DefinitionSource.load e.source = .ok definitions) :
    e.reload.2.index = arrange (draftsOf e.store definitions).1 := by
  rw [reload_eq h]
  rfl

theorem store_reload (h : DefinitionSource.load e.source = .ok definitions) :
    e.reload.2.store = (draftsOf e.store definitions).2 := by
  rw [reload_eq h]
  rfl

theorem source_reload (h : DefinitionSource.load e.source = .ok definitions) :
    e.reload.2.source = e.source := by
  rw [reload_eq h]
  rfl

theorem mem_keys_reload (h : DefinitionSource.load e.source = .ok definitions) {id : RegionId} :
    id ∈ e.reload.2.index.keys ↔ id ∈ idsOf definitions := by
  rw [index_reload h]
  exact mem_keys_arrange.trans mem_ids_draftsOf

theorem exists_get?_reload_iff (h : DefinitionSource.load e.source = .ok definitions)
    {id : RegionId} : (∃ r, e.reload.2.index.get? id = some r) ↔ id ∈ idsOf definitions := by
  rw [← mem_keys_reload h, SortedMap.mem_keys_iff, Option.isSome_iff_exists]

/-- A region in force has the last definition with its id. -/
theorem definition_of_get?_reload (h : DefinitionSource.load e.source = .ok definitions)
    {id : RegionId} {r : Region} (hr : e.reload.2.index.get? id = some r) :
    (definitions.filter fun d => d.id = id).getLast? = some r.definition := by
  have hid : id ∈ idsOf definitions :=
    (mem_keys_reload h).mp (SortedMap.mem_keys_iff.mpr (Option.isSome_iff_exists.mpr ⟨r, hr⟩))
  rw [index_reload h] at hr
  rw [← getLast?_draftsOf (s := e.store) hid]
  exact definition_of_get?_arrange hr

/-- **A load ends with a forest,** whatever the store holds and whatever parents the definitions
name. Its regions are those of the ids that are not blank; each has the last definition with its
id. -/
theorem forest_reload (h : DefinitionSource.load e.source = .ok definitions) :
    e.reload.1 = .ok (idsOf definitions).length ∧
      e.reload.2.index.keys.Perm (idsOf definitions) ∧
      e.reload.2.index.Forest ∧
      ∀ id r, e.reload.2.index.get? id = some r →
        (definitions.filter fun d => d.id = id).getLast? = some r.definition := by
  have hkeys : e.reload.2.index.keys.Perm (idsOf definitions) :=
    (List.perm_ext_iff_of_nodup (SortedMap.nodup_keys _) (nodup_idsOf definitions)).mpr
      fun _ => mem_keys_reload h
  refine ⟨?_, hkeys, ?_, fun id r hr => definition_of_get?_reload h hr⟩
  · rw [index_reload h] at hkeys
    rw [reload_eq h, ← SortedMap.length_keys, hkeys.length_eq]
  · rw [index_reload h]
    exact forest_arrange _

/-- Definitions that name each other, themselves, a region that is missing, and an id twice. -/
def tangled : List RegionDefinition :=
  [{ id := ⟨"mill"⟩, parent := some ⟨"pond"⟩ }, { id := ⟨"pond"⟩, parent := some ⟨"mill"⟩ },
    { id := ⟨" "⟩ }, { id := ⟨"well"⟩, parent := some ⟨"well"⟩ },
    { id := ⟨"mill"⟩, name := "Old mill", parent := some ⟨"pond"⟩ },
    { id := ⟨"barn"⟩, parent := some ⟨"farm"⟩ }]

/-- An engine that loads the tangled definitions. -/
def tangledEngine : Engine MemorySource MemoryStore :=
  .start { definitions := tangled } {} (fun _ => none) 16 true

theorem forest_reload_tangled :
    DefinitionSource.load tangledEngine.source = .ok tangled ∧
      tangledEngine.reload.1 = .ok 4 ∧ tangledEngine.reload.2.index.Forest := by
  have hload : DefinitionSource.load tangledEngine.source = .ok tangled := rfl
  have hids : (idsOf tangled).length = 4 := by decide
  obtain ⟨hcount, -, hforest, -⟩ := forest_reload hload
  exact ⟨hload, hids ▸ hcount, hforest⟩

end Engine

end RegionPolicy
