import RegionPolicy.Proofs.Inheritance
import RegionPolicy.Proofs.Inspection

/-!
# The flags of a region

A region below another has its own bindings over those from above, merged into one list with one
binding for each flag. What is looked up there is what a diagnosis finds by going up the lineage:
the last binding in the nearest definition that has any.

A root has its bindings as they are written, and nothing is merged. A flag that is bound twice in
its definition is then bound twice in the list, and while a diagnosis takes the last binding, a look
into the list finds the first. The regions below the root merge the list again, and are right.

## Main definitions

* `lastFlag?` — the last binding of a flag in a list.

## Main results

* `map_key_putFlag`, `find?_putFlag` — what putting one binding does to a list.
* `nodup_mergeFlags`, `find?_mergeFlags` — what is in two merged lists.
* `RegionIndex.Settled.lastFlag?_flags` — the last binding in the flags of a region.
* `Engine.flags_reload_iff` — after a load, when the flags of a region are those of a diagnosis.
-/

namespace RegionPolicy

variable {key : FlagKey} {b : FlagBinding} {bindings above own : List FlagBinding}

/-! ### Putting one binding -/

/-- A flag that has been bound keeps its place; any other comes at the end. -/
theorem map_key_putFlag (b : FlagBinding) (bindings : List FlagBinding) :
    (putFlag b bindings).map FlagBinding.key =
      if b.key ∈ bindings.map FlagBinding.key then bindings.map FlagBinding.key
      else bindings.map FlagBinding.key ++ [b.key] := by
  induction bindings with
  | nil => rfl
  | cons c rest ih =>
    rw [putFlag]
    by_cases hkey : c.key = b.key
    · rw [if_pos hkey, List.map_cons, List.map_cons, if_pos (hkey ▸ List.mem_cons_self), hkey]
    · have hmem : b.key ∈ (c :: rest).map FlagBinding.key ↔ b.key ∈ rest.map FlagBinding.key := by
        rw [List.map_cons, List.mem_cons, or_iff_right (Ne.symm hkey)]
      rw [if_neg hkey, List.map_cons, ih]
      simp only [hmem]
      split <;> rfl

theorem nodup_putFlag (h : (bindings.map FlagBinding.key).Nodup) :
    ((putFlag b bindings).map FlagBinding.key).Nodup := by
  rw [map_key_putFlag]
  split
  · exact h
  · rename_i hnew
    exact List.nodup_append.mpr ⟨h, List.nodup_singleton _, by simpa using hnew⟩

/-- The binding that is put is found, and of other flags what was found before. -/
theorem find?_putFlag (key : FlagKey) (b : FlagBinding) (bindings : List FlagBinding) :
    (putFlag b bindings).find? (fun c => c.key = key) =
      if b.key = key then some b else bindings.find? fun c => c.key = key := by
  induction bindings with
  | nil => simp [putFlag, List.find?_singleton]
  | cons c rest ih =>
    rw [putFlag]
    by_cases hkey : c.key = b.key
    · rw [if_pos hkey, List.find?_cons, List.find?_cons, hkey]
      by_cases hb : b.key = key <;> simp [hb]
    · rw [if_neg hkey, List.find?_cons, List.find?_cons, ih]
      by_cases hb : b.key = key
      · rw [if_pos hb, decide_eq_false (hb ▸ hkey), if_pos hb]
      · simp only [if_neg hb]

/-! ### Merged lists -/

/-- The last binding of a flag in a list. -/
def lastFlag? (bindings : List FlagBinding) (key : FlagKey) : Option FlagBinding :=
  bindings.reverse.find? fun b => b.key = key

theorem lastFlag?_append (bindings bindings' : List FlagBinding) (key : FlagKey) :
    lastFlag? (bindings ++ bindings') key =
      (lastFlag? bindings' key).or (lastFlag? bindings key) := by
  rw [lastFlag?, List.reverse_append, List.find?_append, lastFlag?, lastFlag?]

theorem lastFlag?_cons (b : FlagBinding) (bindings : List FlagBinding) (key : FlagKey) :
    lastFlag? (b :: bindings) key =
      (lastFlag? bindings key).or (if b.key = key then some b else none) := by
  rw [← List.singleton_append, lastFlag?_append]
  simp [lastFlag?, List.find?_singleton]

/-- Where every flag is bound once at most, the first binding is the last. -/
theorem lastFlag?_eq_find? (h : (bindings.map FlagBinding.key).Nodup) (key : FlagKey) :
    lastFlag? bindings key = bindings.find? fun b => b.key = key := by
  induction bindings with
  | nil => rfl
  | cons b rest ih =>
    obtain ⟨hnew, hrest⟩ := List.nodup_cons.mp h
    rw [lastFlag?_cons, ih hrest, List.find?_cons]
    by_cases hkey : b.key = key
    · have hnone : (rest.find? fun c => c.key = key) = none := by
        rw [List.find?_eq_none]
        intro c hc hck
        exact hnew (List.mem_map.mpr ⟨c, hc, (of_decide_eq_true hck).trans hkey.symm⟩)
      rw [hnone, if_pos hkey, decide_eq_true hkey, Option.none_or]
    · rw [if_neg hkey, decide_eq_false hkey, Option.or_none]

theorem nodup_foldl_putFlag (new bindings : List FlagBinding)
    (h : (bindings.map FlagBinding.key).Nodup) :
    ((new.foldl (fun merged b => putFlag b merged) bindings).map FlagBinding.key).Nodup := by
  induction new generalizing bindings with
  | nil => exact h
  | cons b rest ih => exact ih _ (nodup_putFlag h)

/-- Of bindings that are put one by one the last is found, and of other flags what was found
before. -/
theorem find?_foldl_putFlag (new bindings : List FlagBinding) (key : FlagKey) :
    (new.foldl (fun merged b => putFlag b merged) bindings).find? (fun c => c.key = key) =
      (lastFlag? new key).or (bindings.find? fun c => c.key = key) := by
  induction new generalizing bindings with
  | nil => rfl
  | cons b rest ih =>
    rw [List.foldl_cons, ih, find?_putFlag, lastFlag?_cons, Option.or_assoc]
    by_cases hkey : b.key = key
    · rw [if_pos hkey, if_pos hkey, Option.some_or]
    · rw [if_neg hkey, if_neg hkey, Option.none_or]

/-- **Merged lists have one binding for each flag.** -/
theorem nodup_mergeFlags (above own : List FlagBinding) :
    ((mergeFlags above own).map FlagBinding.key).Nodup :=
  nodup_foldl_putFlag (above ++ own) [] List.nodup_nil

/-- **In merged lists the last binding is found:** the last of the region's own, or else the last
from above. -/
theorem find?_mergeFlags (above own : List FlagBinding) (key : FlagKey) :
    (mergeFlags above own).find? (fun c => c.key = key) =
      (lastFlag? own key).or (lastFlag? above key) := by
  rw [mergeFlags, find?_foldl_putFlag, lastFlag?_append, List.find?_nil, Option.or_none]

/-! ### Flags from above -/

namespace RegionIndex

variable {index : RegionIndex}

/-- **The last binding in the flags of a region** is the last in the nearest definition that has
any, going up. -/
theorem Settled.lastFlag?_flags (h : index.Settled) {id : RegionId} {r : Region}
    {path : List Region} (hpath : index.Climb id path) (hr : index.get? id = some r)
    (key : FlagKey) :
    lastFlag? r.flags key = path.findSome? fun s => s.definition.flag? key := by
  refine h.climb_induction (motive := fun r path =>
    lastFlag? r.flags key = path.findSome? fun s => s.definition.flag? key) ?_ ?_ hpath r hr
  · intro d shape children r
    rw [List.findSome?_singleton]
    rfl
  · intro above path d shape children ih r
    have hown : r.flags = mergeFlags above.flags d.flags := rfl
    have hlast : r.definition.flag? key = lastFlag? d.flags key := rfl
    rw [List.findSome?_cons, ← ih, hlast, hown, lastFlag?_eq_find? (nodup_mergeFlags _ _),
      find?_mergeFlags]
    cases lastFlag? d.flags key <;> rfl

/-- A root has its bindings as they are written. -/
theorem Settled.flags_of_root (h : index.Settled) {id : RegionId} {r : Region}
    (hr : index.get? id = some r) (hroot : r.parent = none) : r.flags = r.definition.flags := by
  have hflags := congrArg Region.flags (h id r hr)
  rw [hroot, Option.bind_none] at hflags
  exact hflags

/-- A region below another has one binding for each flag. -/
theorem Settled.nodup_flags (h : index.Settled) (hforest : index.Forest) {id : RegionId}
    {r : Region} (hr : index.get? id = some r) {parent : RegionId}
    (hparent : r.parent = some parent) : (r.flags.map FlagBinding.key).Nodup := by
  obtain ⟨above, habove⟩ := SortedMap.contains_iff.mp (hforest.contains_parent hr hparent)
  have hflags := congrArg Region.flags (h id r hr)
  rw [hparent, Option.bind_some, habove] at hflags
  rw [hflags]
  exact nodup_mergeFlags above.flags r.definition.flags

/-- The binding that counts for a flag that is inherited is the last in the nearest definition of
the lineage that has any. -/
theorem map_binding_deciding? {r : Region} (hkey : key.inherits = true) :
    (index.deciding? r key).map ResolvedBinding.binding =
      (index.lineage r.id).reverse.findSome? fun s => s.definition.flag? key := by
  rw [deciding?, if_pos hkey]
  induction (index.lineage r.id).reverse with
  | nil => rfl
  | cons s rest ih =>
    have hbinds : s.binds key = (s.definition.flag? key).isSome := by
      rw [Bool.eq_iff_iff, RegionDefinition.flag?, List.find?_isSome, Region.binds,
        List.any_eq_true]
      simp only [List.mem_reverse]
    rw [List.findSome?_cons, List.find?_cons, hbinds]
    cases hflag : s.definition.flag? key with
    | none => exact ih
    | some b => simp [hflag]

end RegionIndex

/-! ### Flags and diagnoses -/

namespace Engine

variable {δ σ : Type} [DefinitionSource δ] [ArtifactStore σ] {e : Engine δ σ}
  {definitions : List RegionDefinition}

/-- After a load a diagnosis names the last binding in the flags of a region. -/
theorem map_binding_effective_reload (hload : DefinitionSource.load e.source = .ok definitions)
    {r : Region} (hr : e.reload.2.index.get? r.id = some r) (hkey : key.inherits = true) :
    ((e.reload.2.effective r key).1).map ResolvedBinding.binding = lastFlag? r.flags key := by
  have hforest := (forest_reload hload).2.2.1
  obtain ⟨path, hpath, -⟩ := hforest.climb hr
  have hsettled : e.reload.2.index.Settled := index_reload hload ▸ settled_arrange _
  rw [effective_of_fresh hforest.keyed hr (fresh_reload hload r),
    ← RegionIndex.deciding?_eq_bind_supplier?, RegionIndex.map_binding_deciding? hkey,
    hpath.lineage_eq hforest.keyed, List.reverse_reverse, hsettled.lastFlag?_flags hpath hr]

/-- **When the flags of a region are those of a diagnosis.** After a load the flags of a region hold
one binding for each flag, and of a flag that is inherited the binding that a diagnosis names,
unless the region is a root: that has its bindings as they are written, so a flag may be bound more
than once, and the first binding found is not the one that a diagnosis names if its definition
begins and ends with different ones. Whether a flag is bound at all is always the same. -/
theorem flags_reload_iff (hload : DefinitionSource.load e.source = .ok definitions)
    {r : Region} (hr : e.reload.2.index.get? r.id = some r) :
    ((r.flags.map FlagBinding.key).Nodup ↔
        (r.parent = none → (r.definition.flags.map FlagBinding.key).Nodup)) ∧
      ∀ key : FlagKey, key.inherits = true →
        (r.flag? key = none ↔ (e.reload.2.effective r key).1 = none) ∧
        (r.flag? key = ((e.reload.2.effective r key).1).map ResolvedBinding.binding ↔
          (r.parent = none →
            (r.definition.flags.find? fun b => b.key = key) = r.definition.flag? key)) := by
  have hforest := (forest_reload hload).2.2.1
  have hsettled : e.reload.2.index.Settled := index_reload hload ▸ settled_arrange _
  refine ⟨?_, fun key hkey => ?_⟩
  · cases hparent : r.parent with
    | none => simp [hsettled.flags_of_root hr hparent]
    | some parent => simp [hsettled.nodup_flags hforest hr hparent]
  · have heffective := map_binding_effective_reload hload hr hkey
    constructor
    · rw [← Option.map_eq_none_iff (f := ResolvedBinding.binding), heffective, Region.flag?,
        lastFlag?, List.find?_eq_none, List.find?_eq_none]
      simp only [List.mem_reverse]
    · rw [heffective, Region.flag?]
      cases hparent : r.parent with
      | none =>
        rw [hsettled.flags_of_root hr hparent, RegionDefinition.flag?, lastFlag?]
        simp
      | some parent =>
        rw [lastFlag?_eq_find? (hsettled.nodup_flags hforest hr hparent)]
        simp

/-! ### An orchard and its shed -/

/-- An orchard in which building is turned off and on again. -/
def orchard : RegionDefinition :=
  { id := ⟨"orchard"⟩,
    flags := [.ofValue .build (.boolean false), .ofValue .build (.boolean true)] }

/-- A shed in the orchard. -/
def shed : RegionDefinition :=
  { id := ⟨"shed"⟩, parent := some orchard.id, flags := [.ofValue .pvp (.boolean false)] }

/-- An engine that loads the orchard and its shed. -/
def orchardEngine : Engine MemorySource MemoryStore :=
  .start { definitions := [orchard, shed] } {} .standard 16 true

theorem load_orchardEngine :
    DefinitionSource.load orchardEngine.source = .ok [orchard, shed] := rfl

theorem exists_get?_orchardEngine (id : RegionId) (P : Region → Prop) [DecidablePred P]
    (h : (orchardEngine.reload.2.index.get? id).any (fun r => decide (P r)) = true) :
    ∃ r, orchardEngine.reload.2.index.get? r.id = some r ∧ P r := by
  obtain ⟨r, hr, hP⟩ := (Option.any_eq_true ..).mp h
  exact ⟨r, (keyed_reload load_orchardEngine id r hr).symm ▸ hr, of_decide_eq_true hP⟩

/-- The shed has one binding for each flag, and what it has from the orchard is what a diagnosis
names. -/
theorem flags_reload_iff_shed :
    DefinitionSource.load orchardEngine.source = .ok [orchard, shed] ∧
      FlagKey.build.inherits = true ∧
      ∃ r, orchardEngine.reload.2.index.get? r.id = some r ∧ r.parent = some orchard.id ∧
        (r.flags.map FlagBinding.key).Nodup ∧
        r.flag? .build =
          ((orchardEngine.reload.2.effective r .build).1).map ResolvedBinding.binding := by
  obtain ⟨r, hr, hparent⟩ := exists_get?_orchardEngine shed.id
    (fun r => r.parent = some orchard.id) (by decide +kernel)
  have hbelow : r.parent ≠ none := by
    rw [hparent]
    exact Option.some_ne_none _
  obtain ⟨hnodup, hflags⟩ := flags_reload_iff load_orchardEngine hr
  exact ⟨load_orchardEngine, rfl, r, hr, hparent, hnodup.mpr fun hroot => absurd hroot hbelow,
    (hflags .build rfl).2.mpr fun hroot => absurd hroot hbelow⟩

/-- **In the orchard itself building is bound twice,** and found to be off where a diagnosis says
that it is on. -/
theorem orchard_bound_twice :
    (∃ count, orchardEngine.reload.1 = .ok count) ∧ FlagKey.build.inherits = true ∧
      ∃ r, orchardEngine.reload.2.index.get? r.id = some r ∧
        ¬ (r.flags.map FlagBinding.key).Nodup ∧
        r.flag? .build = some (.ofValue .build (.boolean false)) ∧
        ((orchardEngine.reload.2.effective r .build).1).map ResolvedBinding.binding =
          some (.ofValue .build (.boolean true)) := by
  obtain ⟨r, hr, hflags⟩ := exists_get?_orchardEngine orchard.id
    (fun r => r.flags = orchard.flags) (by decide +kernel)
  refine ⟨⟨_, congrArg Prod.fst (reload_eq load_orchardEngine)⟩, rfl, r, hr, ?_, ?_, ?_⟩
  · rw [hflags]
    decide
  · rw [Region.flag?, hflags]
    rfl
  · rw [map_binding_effective_reload load_orchardEngine hr rfl, hflags]
    rfl

end Engine

end RegionPolicy
