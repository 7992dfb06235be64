import RegionPolicy.Proofs.Loading

/-!
# Definitions that are put in place of others

A source in memory takes a new definition in place of an old one with the same id. A list can hold
several definitions with one id, and then the two places where one of them is chosen do not fit
together: what is new takes the place of the first, while a load keeps the last. So a new definition
takes effect if it comes into the place of the only one, or has an id of its own; where there are
more of its name, the last of them stays in force, and the new one is not to be seen anywhere.

Regions of other ids are never touched by it, and a blank id brings no region into force, whatever
else the list holds.

## Main definitions

* `Engine.upsert` — an engine once a definition was put into its source.

## Main results

* `Engine.map_definition_get?_reload` — the definition that a load brings into force under an id.
* `MemorySource.filter_upsertInto_self`, `MemorySource.filter_upsertInto_of_ne` — what becomes of
  the definitions with an id.
* `Engine.upsert_reload_iff` — when a new definition takes effect.
-/

namespace RegionPolicy

/-! ### Lists of definitions -/

/-- What comes last in a list without its first element, or else something given, is what is given
if the list is short or ends with it. -/
theorem getD_getLast?_tail_eq_iff {α : Type} (l : List α) (a : α) :
    l.tail.getLast?.getD a = a ↔ l.length ≤ 1 ∨ l.getLast? = some a := by
  rcases l with _ | ⟨first, _ | ⟨second, rest⟩⟩
  · simp
  · simp
  · rw [List.tail_cons, List.getLast?_cons_cons]
    obtain ⟨last, hlast⟩ := Option.isSome_iff_exists.mp (List.getLast?_isSome.mpr
      (List.cons_ne_nil second rest))
    simp [hlast]

namespace MemorySource

/-- Of the definitions with its id, a new one takes the place of the first. -/
theorem filter_upsertInto_self (d : RegionDefinition) (definitions : List RegionDefinition) :
    (upsertInto d definitions).filter (fun n => n.id = d.id) =
      d :: (definitions.filter fun n => n.id = d.id).tail := by
  induction definitions with
  | nil => simp [upsertInto]
  | cons first rest ih =>
    rw [upsertInto]
    split
    · rename_i hid
      rw [List.filter_cons_of_pos (by simp), List.filter_cons_of_pos (by simpa using hid),
        List.tail_cons]
    · rename_i hid
      rw [List.filter_cons_of_neg (by simpa using hid),
        List.filter_cons_of_neg (by simpa using hid), ih]

/-- The definitions with another id are left alone. -/
theorem filter_upsertInto_of_ne {d : RegionDefinition} {id : RegionId} (h : id ≠ d.id)
    (definitions : List RegionDefinition) :
    (upsertInto d definitions).filter (fun n => n.id = id) =
      definitions.filter fun n => n.id = id := by
  induction definitions with
  | nil => simp [upsertInto, h.symm]
  | cons first rest ih =>
    rw [upsertInto]
    split
    · rename_i hid
      rw [List.filter_cons_of_neg (by simpa using h.symm),
        List.filter_cons_of_neg (by simpa [hid] using h.symm)]
    · rw [List.filter_cons, List.filter_cons, ih]

theorem load_of_failure_eq_none {s : MemorySource} (h : s.failure = none) :
    DefinitionSource.load s = .ok s.definitions := by
  simp only [DefinitionSource.load, h]

end MemorySource

/-! ### Loads -/

/-- The ids under which regions come into force are those that are not blank. -/
theorem mem_idsOf_iff {definitions : List RegionDefinition} {id : RegionId} :
    id ∈ idsOf definitions ↔ (definitions.filter fun d => d.id = id) ≠ [] ∧ id.isBlank = false := by
  rw [idsOf, List.mem_dedup, List.mem_filter, List.mem_map, Ne, List.filter_eq_nil_iff]
  simp

namespace Engine

variable {δ σ : Type}

/-- **The definition that a load brings into force under an id** is the last one that there is. -/
theorem map_definition_get?_reload [DefinitionSource δ] [ArtifactStore σ] {e : Engine δ σ}
    {definitions : List RegionDefinition}
    (hload : DefinitionSource.load e.source = .ok definitions) (id : RegionId) :
    (e.reload.2.index.get? id).map Region.definition =
      if id.isBlank then none else (definitions.filter fun d => d.id = id).getLast? := by
  have hforce : (∃ r, e.reload.2.index.get? id = some r) ↔ id ∈ idsOf definitions :=
    exists_get?_reload_iff hload
  rw [mem_idsOf_iff] at hforce
  cases hr : e.reload.2.index.get? id with
  | some r =>
    rw [(hforce.mp ⟨r, hr⟩).2, definition_of_get?_reload hload hr]
    rfl
  | none =>
    split
    · rfl
    · rename_i hblank
      have hnone : (definitions.filter fun d => d.id = id) = [] := by
        by_contra hsome
        obtain ⟨r, hr'⟩ := hforce.mpr ⟨hsome, by simpa using hblank⟩
        rw [hr] at hr'
        cases hr'
      rw [hnone]
      rfl

/-! ### Loads after a definition was put in -/

/-- An engine once a definition was put into its source. -/
def upsert (e : Engine MemorySource σ) (d : RegionDefinition) : Engine MemorySource σ :=
  { e with source := e.source.upsert d }

variable {e : Engine MemorySource σ} {d : RegionDefinition}

theorem load_upsert (h : e.source.failure = none) (d : RegionDefinition) :
    DefinitionSource.load (e.upsert d).source =
      .ok (MemorySource.upsertInto d e.source.definitions) :=
  MemorySource.load_of_failure_eq_none (s := e.source.upsert d) h

variable [ArtifactStore σ]

/-- **What is in force under the id of a new definition:** the last of those that had the id before,
but for the first; and if there is none, the new one. -/
theorem map_definition_get?_upsert (h : e.source.failure = none) (hd : d.id.isBlank = false) :
    ((e.upsert d).reload.2.index.get? d.id).map Region.definition =
      some ((e.source.definitions.filter fun n => n.id = d.id).tail.getLast?.getD d) := by
  rw [map_definition_get?_reload (load_upsert h d), hd, MemorySource.filter_upsertInto_self,
    List.getLast?_cons]
  rfl

/-- **When a new definition takes effect.** Put into a source in memory, a definition whose id is
not blank is in force after the next load just if there was at most one definition with its id
before, or the last of these was the same already; else that last one stays in force. Under every
other id the definition in force is the one that would be in force without it. -/
theorem upsert_reload_iff (h : e.source.failure = none) (hd : d.id.isBlank = false) :
    let namesakes := e.source.definitions.filter fun n => n.id = d.id
    (∃ n, (e.upsert d).reload.1 = .ok n) ∧
      (∃ r, (e.upsert d).reload.2.index.get? d.id = some r ∧
        r.definition = namesakes.tail.getLast?.getD d ∧
        (r.definition = d ↔ namesakes.length ≤ 1 ∨ namesakes.getLast? = some d)) ∧
      ∀ id ≠ d.id, ((e.upsert d).reload.2.index.get? id).map Region.definition =
        (e.reload.2.index.get? id).map Region.definition := by
  intro namesakes
  refine ⟨⟨_, congrArg Prod.fst (reload_eq (load_upsert h d))⟩, ?_, fun id hid => ?_⟩
  · obtain ⟨r, hr, hdefinition⟩ := Option.map_eq_some_iff.mp (map_definition_get?_upsert h hd)
    exact ⟨r, hr, hdefinition, hdefinition ▸ getD_getLast?_tail_eq_iff namesakes d⟩
  · rw [map_definition_get?_reload (load_upsert h d),
      map_definition_get?_reload (MemorySource.load_of_failure_eq_none h),
      MemorySource.filter_upsertInto_of_ne hid]

/-! ### A mill that is defined more than once -/

section Mill

/-- A mill of some priority. -/
def mill (priority : Int32) : RegionDefinition := { id := ⟨"mill"⟩, priority }

/-- An engine that loads one mill for each of some priorities. -/
def millEngine (priorities : List Int32) : Engine MemorySource MemoryStore :=
  .start { definitions := priorities.map mill } {} .standard 16 true

theorem upsert_reload_iff_mill :
    (mill 7).id.isBlank = false ∧
      ∃ r, ((millEngine [1]).upsert (mill 7)).reload.2.index.get? (mill 7).id = some r ∧
        r.definition = mill 7 := by
  have hblank : (mill 7).id.isBlank = false := by decide
  obtain ⟨-, ⟨r, hr, -, heffect⟩, -⟩ := upsert_reload_iff (e := millEngine [1]) rfl hblank
  exact ⟨hblank, r, hr, heffect.mpr (.inl (by decide))⟩

/-- **A new definition can go unseen.** Of two mills the first is exchanged, and the second stays in
force. -/
theorem upsert_mill_unseen :
    (millEngine [1, 2]).source.failure = none ∧ (mill 7).id.isBlank = false ∧
      ∃ r, ((millEngine [1, 2]).upsert (mill 7)).reload.2.index.get? (mill 7).id = some r ∧
        r.definition = mill 2 ∧ r.definition ≠ mill 7 := by
  have hblank : (mill 7).id.isBlank = false := by decide
  obtain ⟨r, hr, hdefinition⟩ :=
    Option.map_eq_some_iff.mp (map_definition_get?_upsert (e := millEngine [1, 2]) rfl hblank)
  have hlast : r.definition = mill 2 := hdefinition
  refine ⟨rfl, hblank, r, hr, hlast, ?_⟩
  rw [hlast]
  exact fun hsame => absurd (congrArg RegionDefinition.priority hsame) (by decide)

end Mill

end Engine

end RegionPolicy
