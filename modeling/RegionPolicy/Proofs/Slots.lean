import RegionPolicy.Proofs.Texts

/-!
# Stores made of slots

Whatever a store does for an artifact, it does in the slot of that artifact's place: what is read
there, and what is there after a write, depends on that slot and on nothing else, and a write
leaves all other slots alone. A slot tells the text, and whether it can be read or written; nothing
but a write changes it. So a store is as good as the function that gives the slot of each place, and
what a load does to it can be said slot by slot.

Loading comes to an artifact once for every definition that names it. Where the artifacts that
share a place have the same settings, only the first time counts: preparing a slot again changes
nothing, and each of the definitions gets the shape that it would get alone.

## Main definitions

* `SlotStore` — a store made of slots.
* `SlotStore.prepared` — a slot once an artifact has come up.
* `Agreeing` — artifacts that share a place have the same settings.

## Main results

* `SlotStore.slot_prepare`, `SlotStore.resolveShape_eq` — one artifact at a store, said by slots.
* `SlotStore.slot_foldl_prepare` — what many artifacts do to one slot.
* `Engine.drafts_draftsOf` — artifacts that agree do not get into each other's way.
* `Engine.reload_reload` — loading a second time changes nothing.
-/

namespace RegionPolicy

/-- A store made of slots, one for each place. -/
class SlotStore (σ : Type) [ArtifactStore σ] [TextStore σ] where
  /-- What there is to know of one place. -/
  Slot : Type
  /-- The slot of a place. -/
  slot : σ → String → Slot
  /-- The text in a slot, whether it can be read or not. -/
  text : Slot → Option String
  /-- The text in a slot, as far as it can be read. -/
  seen : Slot → Option String
  /-- A slot after an attempt to write. -/
  put : Slot → String → Slot
  /-- The text at a place is the text in its slot. -/
  textAt_eq : ∀ (s : σ) (p : String), TextStore.textAt s p = text (slot s p)
  /-- What can be read of an artifact is what is seen in its slot. -/
  text?_eq : ∀ (s : σ) (a : Artifact),
    ArtifactStore.text? s a = seen (slot s (TextStore.place σ a.id))
  /-- A write, whether it succeeds or not, takes place in one slot. -/
  slot_write : ∀ (s : σ) (id : ArtifactId) (data : String),
    slot (ArtifactStore.write s id data).2 =
      Function.update (slot s) (TextStore.place σ id) (put (slot s (TextStore.place σ id)) data)
  /-- Writing the same text again changes nothing. -/
  put_put : ∀ (x : Slot) (data : String), put (put x data) data = put x data

/-! ### The slots of a store in memory -/

/-- What a store in memory holds for one artifact. -/
structure MemorySlot where
  /-- The text. -/
  text : Option String
  /-- Whether reading it fails. -/
  unreadable : Bool
  /-- Whether writing it fails. -/
  unwritable : Bool

namespace MemoryStore

/-- What is held at a place. -/
def slotAt (s : MemoryStore) (p : String) : MemorySlot :=
  ⟨s.blobs.get? ⟨p⟩, s.unreadable.contains ⟨p⟩, s.unwritable.contains ⟨p⟩⟩

theorem slotAt_write (s : MemoryStore) (id : ArtifactId) (data : String) :
    (ArtifactStore.write s id data).2.slotAt =
      Function.update s.slotAt id.text
        (if s.unwritable.contains id then s.slotAt id.text
          else { s.slotAt id.text with text := some data }) := by
  funext p
  simp only [ArtifactStore.write]
  split
  · rw [Function.update_eq_self]
  · by_cases hp : p = id.text
    · subst hp
      rw [Function.update_self]
      simp only [slotAt, SortedMap.get?_insert_self]
    · have hne : (⟨p⟩ : ArtifactId) ≠ id := fun h => hp (congrArg ArtifactId.text h)
      rw [Function.update_of_ne hp]
      simp only [slotAt, SortedMap.get?_insert_of_ne _ _ hne]

end MemoryStore

instance : SlotStore MemoryStore where
  Slot := MemorySlot
  slot := MemoryStore.slotAt
  text := MemorySlot.text
  seen x := if x.unreadable then none else x.text
  put x data := if x.unwritable then x else { x with text := some data }
  textAt_eq _ _ := rfl
  text?_eq := by
    intro s a
    simp only [ArtifactStore.text?, ArtifactStore.read]
    show _ = if s.unreadable.contains a.id then none else s.blobs.get? a.id
    cases s.unreadable.contains a.id <;> rfl
  slot_write := MemoryStore.slotAt_write
  put_put := by
    intro x data
    by_cases hx : x.unwritable = true
    · simp only [if_pos hx]
    · simp only [if_neg hx]

/-- In memory every artifact has a place of its own. -/
theorem MemoryStore.place_inj {id id' : ArtifactId} :
    TextStore.place MemoryStore id = TextStore.place MemoryStore id' ↔ id = id' :=
  ⟨fun h => congrArg ArtifactId.mk h, fun h => congrArg ArtifactId.text h⟩

/-- **In memory the slots are all there is.** -/
theorem MemoryStore.eq_of_slot_eq {s s' : MemoryStore}
    (h : SlotStore.slot s = SlotStore.slot s') : s = s' := by
  have hslot : ∀ id : ArtifactId, s.slotAt id.text = s'.slotAt id.text :=
    fun id => congrFun h id.text
  obtain ⟨blobs, unreadable, unwritable⟩ := s
  obtain ⟨blobs', unreadable', unwritable'⟩ := s'
  obtain rfl : blobs = blobs' :=
    SortedMap.ext_get? fun id => congrArg MemorySlot.text (hslot id)
  obtain rfl : unreadable = unreadable' := by
    refine SortedSet.ext_mem fun id => ?_
    rw [← SortedSet.contains_iff, ← SortedSet.contains_iff]
    exact Eq.congr_left (congrArg MemorySlot.unreadable (hslot id))
  obtain rfl : unwritable = unwritable' := by
    refine SortedSet.ext_mem fun id => ?_
    rw [← SortedSet.contains_iff, ← SortedSet.contains_iff]
    exact Eq.congr_left (congrArg MemorySlot.unwritable (hslot id))
  rfl

/-! ### The slots of a store on disk -/

/-- What a store on disk holds under one file name. -/
structure DiskSlot where
  /-- Whether the file can be neither read nor written, whatever it is. -/
  barred : Bool
  /-- The file. -/
  file : Option DiskFile

/-- Whether the file cannot be written. -/
def DiskSlot.refuses (x : DiskSlot) : Bool :=
  x.barred || x.file = some .directory

namespace DiskStore

/-- Whether a file is in the way of the directory. -/
def isBlocked : DiskStore → Bool
  | blocked => true
  | _ => false

/-- What is held at a place. -/
def slotAt (s : DiskStore) (name : String) : DiskSlot :=
  ⟨s.isBlocked || isTooLong name, s.files.get? name⟩

/-- What is seen under a name, as far as it can be read. -/
def seenAt (s : DiskStore) (name : String) : Option String :=
  if (s.slotAt name).barred then none else (s.slotAt name).file.bind DiskFile.content?

theorem seenAt_eq (s : DiskStore) (name : String) :
    s.seenAt name =
      match s.readFile name with
      | .ok data => data
      | .error _ => none := by
  cases s with
  | absent =>
    -- there is no file, whether the name suits or not
    have hnone : absent.seenAt name = none := ite_self none
    rw [hnone, readFile]
    cases isBeyondPaths name <;> rfl
  | blocked => rfl
  | present files =>
    simp only [seenAt, slotAt, isBlocked, Bool.false_or, readFile, DiskStore.files]
    split
    · rfl
    · cases files.get? name with
      | none => rfl
      | some file => cases file <;> rfl

theorem slotAt_of_not_isBlocked {s : DiskStore} (h : s.isBlocked = false) (name : String) :
    s.slotAt name = ⟨isTooLong name, s.files.get? name⟩ := by
  rw [slotAt, h, Bool.false_or]

theorem slotAt_withDirectory (s : DiskStore) : s.withDirectory.slotAt = s.slotAt := by
  cases s <;> rfl

theorem writeRefusal?_eq_none_iff {s : DiskStore} {name : String} :
    s.writeRefusal? name = none ↔ (s.slotAt name).refuses = false := by
  rw [slotAt, DiskSlot.refuses]
  cases s with
  | blocked => simp [writeRefusal?, isBlocked]
  | absent | present files =>
    simp only [writeRefusal?, isBlocked, Bool.false_or]
    cases isTooLong name <;> simp

theorem slotAt_writeFile (s : DiskStore) (name content : String) :
    (s.writeFile name content).2.slotAt =
      Function.update s.slotAt name
        (if (s.slotAt name).refuses then s.slotAt name
          else { s.slotAt name with file := some (.text content) }) := by
  cases hrefusal : s.writeRefusal? name with
  | some refusal =>
    have hrefuses : (s.slotAt name).refuses = true := by
      rw [← Bool.not_eq_false, ← writeRefusal?_eq_none_iff, hrefusal]
      exact Option.some_ne_none refusal
    have hkept : (s.writeFile name content).2 = s.withDirectory := by
      simp only [writeFile, hrefusal]
    rw [hrefuses, if_pos rfl, Function.update_eq_self, hkept, slotAt_withDirectory]
  | none =>
    have hrefuses := writeRefusal?_eq_none_iff.mp hrefusal
    have hblocked : s.isBlocked = false := by
      cases s with
      | blocked => cases hrefusal
      | absent | present files => rfl
    have hwritten : (s.writeFile name content).2 =
        present (s.files.insert name (.text content)) := by
      simp only [writeFile, hrefusal]
    rw [hrefuses, if_neg Bool.false_ne_true, hwritten]
    funext p
    rw [slotAt_of_not_isBlocked rfl, slotAt_of_not_isBlocked hblocked]
    by_cases hp : p = name
    · subst hp
      rw [Function.update_self, DiskStore.files, SortedMap.get?_insert_self]
    · rw [Function.update_of_ne hp, slotAt_of_not_isBlocked hblocked, DiskStore.files,
        SortedMap.get?_insert_of_ne _ _ hp]

end DiskStore

instance : SlotStore DiskStore where
  Slot := DiskSlot
  slot := DiskStore.slotAt
  text x := x.file.bind DiskFile.content?
  seen x := if x.barred then none else x.file.bind DiskFile.content?
  put x data := if x.refuses then x else { x with file := some (.text data) }
  textAt_eq _ _ := rfl
  text?_eq s a := (DiskStore.seenAt_eq s (fileName a.id)).symm
  slot_write s id data := DiskStore.slotAt_writeFile s (fileName id) data
  put_put := by
    intro x data
    by_cases hx : x.refuses = true
    · simp only [if_pos hx]
    · simp only [if_neg hx, ite_self]

/-! ### One artifact -/

namespace SlotStore

open ArtifactStore TextStore

variable {σ : Type} [ArtifactStore σ] [TextStore σ] [SlotStore σ] {s s' : σ} {a b : Artifact}
  {p : String}

/-- A slot once an artifact has come up: what is stale has been replaced, if that is possible. -/
def prepared (a : Artifact) (x : Slot σ) : Slot σ :=
  if isStale a ((seen x).getD "") then put x (payloadText a .cuboid []) else x

/-- **An artifact that comes up again finds its slot prepared.** -/
theorem prepared_prepared (a : Artifact) (x : Slot σ) :
    prepared a (prepared a x) = prepared a x := by
  by_cases hx : isStale a ((seen x).getD "") = true
  · have hput : prepared a x = put x (payloadText a .cuboid []) := if_pos hx
    rw [hput, prepared]
    split
    · exact put_put x _
    · rfl
  · have hkeep : prepared a x = x := if_neg hx
    rw [hkeep, hkeep]

/-- What an artifact does to a slot depends on its settings only. -/
theorem prepared_congr (h : a.global = b.global) (x : Slot σ) : prepared a x = prepared b x := by
  have hstale : isStale a = isStale b := by
    funext data
    rw [isStale, isStale, h]
  have hpayload : payloadText a .cuboid [] = payloadText b .cuboid [] := by
    rw [payloadText, payloadText, h]
  rw [prepared, prepared, hstale, hpayload]

/-- **What one artifact does to a store.** -/
theorem slot_prepare (s : σ) (a : Artifact) :
    slot (prepare s a) =
      Function.update (slot s) (place σ a.id) (prepared a (slot s (place σ a.id))) := by
  rw [prepare, prepared, text?_eq]
  split
  · exact slot_write s a.id _
  · rw [Function.update_eq_self]

theorem slot_prepare_self (s : σ) (a : Artifact) :
    slot (prepare s a) (place σ a.id) = prepared a (slot s (place σ a.id)) := by
  rw [slot_prepare, Function.update_self]

theorem slot_prepare_of_ne (hp : p ≠ place σ a.id) : slot (prepare s a) p = slot s p := by
  rw [slot_prepare, Function.update_of_ne hp]

/-- The shape that an artifact finds in a slot. -/
def shapeIn (a : Artifact) (x : Slot σ) : Shape := shapeOr a ((seen x).bind (geometryOf a))

/-- **The shape of an artifact** is the one in its slot, once that has been prepared. -/
theorem resolveShape_eq (s : σ) (a : Artifact) :
    (resolveShape s (some a)).1 = shapeIn a (prepared a (slot s (place σ a.id))) := by
  rw [← slot_prepare_self, shapeIn, ← text?_eq]
  rfl

/-- Stores with the same slot for an artifact give it the same shape. -/
theorem resolveShape_congr (h : slot s (place σ a.id) = slot s' (place σ a.id)) :
    (resolveShape s (some a)).1 = (resolveShape s' (some a)).1 := by
  rw [resolveShape_eq, resolveShape_eq, h]

/-- An artifact that came up before makes no difference to one with the same settings. -/
theorem resolveShape_prepare (h : place σ a.id = place σ b.id → a.global = b.global) :
    (resolveShape (prepare s a) (some b)).1 = (resolveShape s (some b)).1 := by
  by_cases hplace : place σ a.id = place σ b.id
  · rw [resolveShape_eq, resolveShape_eq, ← hplace, slot_prepare_self, prepared_congr (h hplace),
      prepared_prepared]
  · exact resolveShape_congr (slot_prepare_of_ne (Ne.symm hplace))

end SlotStore

/-! ### Many artifacts -/

/-- Artifacts that share a place have the same settings. -/
def Agreeing (σ : Type) [ArtifactStore σ] [TextStore σ] (as : List Artifact) : Prop :=
  ∀ a ∈ as, ∀ b ∈ as, TextStore.place σ a.id = TextStore.place σ b.id → a.global = b.global

namespace Agreeing

variable {σ : Type} [ArtifactStore σ] [TextStore σ] {as bs : List Artifact}

theorem mono (h : Agreeing σ bs) (hsub : ∀ a ∈ as, a ∈ bs) : Agreeing σ as :=
  fun a ha b hb => h a (hsub a ha) b (hsub b hb)

theorem of_cons {a : Artifact} (h : Agreeing σ (a :: as)) : Agreeing σ as :=
  h.mono fun _ hb => List.mem_cons_of_mem a hb

end Agreeing

/-- In memory that means: artifacts with the same id have the same settings. -/
theorem agreeing_memoryStore_iff {as : List Artifact} :
    Agreeing MemoryStore as ↔ ∀ a ∈ as, ∀ b ∈ as, a.id = b.id → a.global = b.global := by
  simp only [Agreeing, MemoryStore.place_inj]

namespace SlotStore

open ArtifactStore TextStore

variable {σ : Type} [ArtifactStore σ] [TextStore σ] [SlotStore σ] {a b : Artifact} {p : String}

/-- **What artifacts that agree do to a slot:** the first one of the place prepares it, and the
others find it prepared. -/
theorem slot_foldl_prepare {as : List Artifact} (h : Agreeing σ as) (s : σ) (p : String) :
    slot (as.foldl prepare s) p =
      (as.find? fun a => place σ a.id = p).elim (slot s p) fun a => prepared a (slot s p) := by
  induction as generalizing s with
  | nil => rfl
  | cons a rest ih =>
    rw [List.foldl_cons, ih h.of_cons]
    by_cases ha : place σ a.id = p
    · subst ha
      rw [List.find?_cons_of_pos (by simp), slot_prepare_self, Option.elim_some]
      cases hrest : rest.find? fun b => place σ b.id = place σ a.id with
      | none => rfl
      | some b =>
        have hb : b ∈ a :: rest := List.mem_cons_of_mem a (List.mem_of_find?_eq_some hrest)
        have hplace : place σ b.id = place σ a.id := by simpa using List.find?_some hrest
        have hglobal : b.global = a.global := h b hb a List.mem_cons_self hplace
        rw [Option.elim_some, prepared_congr hglobal, prepared_prepared]
    · rw [List.find?_cons_of_neg (by simpa using ha), slot_prepare_of_ne (Ne.symm ha)]

/-- So a slot is prepared afterwards if one of the artifacts has its place. -/
theorem slot_foldl_prepare_of_mem {as : List Artifact} (h : Agreeing σ as) (s : σ) (ha : a ∈ as) :
    slot (as.foldl prepare s) (place σ a.id) = prepared a (slot s (place σ a.id)) := by
  rw [slot_foldl_prepare h]
  cases hfind : as.find? fun b => place σ b.id = place σ a.id with
  | none => exact absurd (decide_eq_true rfl) (List.find?_eq_none.mp hfind a ha)
  | some b =>
    have hplace : place σ b.id = place σ a.id := by simpa using List.find?_some hfind
    exact prepared_congr (h b (List.mem_of_find?_eq_some hfind) a ha hplace) _

/-- And it is left alone if none has. -/
theorem slot_foldl_prepare_of_forall_ne {as : List Artifact} (h : Agreeing σ as) (s : σ)
    (hp : ∀ a ∈ as, place σ a.id ≠ p) : slot (as.foldl prepare s) p = slot s p := by
  have hfind : (as.find? fun a => place σ a.id = p) = none := by
    simpa using hp
  rw [slot_foldl_prepare h, hfind, Option.elim_none]

/-- **The order of the artifacts does not matter.** -/
theorem slot_foldl_prepare_perm {as bs : List Artifact} (hperm : as.Perm bs) (h : Agreeing σ as)
    (s : σ) : slot (as.foldl prepare s) = slot (bs.foldl prepare s) := by
  have h' : Agreeing σ bs := h.mono fun a ha => hperm.mem_iff.mpr ha
  funext p
  by_cases hp : ∃ a ∈ as, place σ a.id = p
  · obtain ⟨a, ha, rfl⟩ := hp
    rw [slot_foldl_prepare_of_mem h s ha, slot_foldl_prepare_of_mem h' s (hperm.mem_iff.mp ha)]
  · simp only [not_exists, not_and] at hp
    rw [slot_foldl_prepare_of_forall_ne h s hp,
      slot_foldl_prepare_of_forall_ne h' s fun a ha => hp a (hperm.mem_iff.mpr ha)]

/-- **Nothing is left to do a second time.** -/
theorem slot_foldl_prepare_twice {as : List Artifact} (h : Agreeing σ as) (s : σ) :
    slot (as.foldl prepare (as.foldl prepare s)) = slot (as.foldl prepare s) := by
  funext p
  by_cases hp : ∃ a ∈ as, place σ a.id = p
  · obtain ⟨a, ha, rfl⟩ := hp
    rw [slot_foldl_prepare_of_mem h _ ha, slot_foldl_prepare_of_mem h s ha, prepared_prepared]
  · simp only [not_exists, not_and] at hp
    exact slot_foldl_prepare_of_forall_ne h _ hp

/-- Artifacts that came up before make no difference to one that agrees with them. -/
theorem resolveShape_foldl_prepare {as : List Artifact}
    (h : ∀ a ∈ as, place σ a.id = place σ b.id → a.global = b.global) (s : σ) :
    (resolveShape (as.foldl prepare s) (some b)).1 = (resolveShape s (some b)).1 := by
  induction as generalizing s with
  | nil => rfl
  | cons a rest ih =>
    rw [List.foldl_cons, ih fun c hc => h c (List.mem_cons_of_mem a hc),
      resolveShape_prepare (h a List.mem_cons_self)]

end SlotStore

/-! ### Loads -/

theorem mem_artifactsOf {definitions : List RegionDefinition} {a : Artifact} :
    a ∈ artifactsOf definitions ↔
      ∃ d ∈ definitions, d.id.isBlank = false ∧ d.artifact = some a := by
  simp only [artifactsOf, List.mem_filterMap, List.mem_filter, Bool.not_eq_true', and_assoc]

namespace Engine

open ArtifactStore TextStore SlotStore

variable {δ σ : Type} [ArtifactStore σ] [TextStore σ] [SlotStore σ]
  {definitions : List RegionDefinition}

/-- The shape of a definition does not depend on artifacts that came up before and agree. -/
theorem resolveShape_resolveShape {d e : RegionDefinition}
    (h : ∀ a b, d.artifact = some a → e.artifact = some b → place σ a.id = place σ b.id →
      a.global = b.global) (s : σ) :
    (resolveShape (resolveShape s d.artifact).2 e.artifact).1 = (resolveShape s e.artifact).1 := by
  cases hd : d.artifact with
  | none => rfl
  | some a =>
    cases he : e.artifact with
    | none => rfl
    | some b => exact resolveShape_prepare (h a b hd he)

/-- **Artifacts that agree do not get into each other's way:** every draft has the shape that its
artifact would get if it came up alone. -/
theorem drafts_draftsOf (h : Agreeing σ (artifactsOf definitions)) (s : σ) :
    (draftsOf s definitions).1 =
      (definitions.filter fun d => !d.id.isBlank).map fun d =>
        ⟨d, (resolveShape s d.artifact).1⟩ := by
  induction definitions generalizing s with
  | nil => rfl
  | cons d rest ih =>
    have hrest : Agreeing σ (artifactsOf rest) := h.mono fun a ha => by
      obtain ⟨e, he, hblank, hartifact⟩ := mem_artifactsOf.mp ha
      exact mem_artifactsOf.mpr ⟨e, List.mem_cons_of_mem d he, hblank, hartifact⟩
    rw [draftsOf]
    split
    · rename_i hblank
      rw [List.filter_cons_of_neg (by simpa using hblank), ih hrest]
    · rename_i hblank
      have hdblank : d.id.isBlank = false := by simpa using hblank
      rw [List.filter_cons_of_pos (by simpa using hblank), List.map_cons]
      simp only [ih hrest]
      congr 1
      refine List.map_congr_left fun e he => ?_
      rw [List.mem_filter, Bool.not_eq_true'] at he
      rw [resolveShape_resolveShape]
      intro a b hd hartifact
      exact h a (mem_artifactsOf.mpr ⟨d, List.mem_cons_self, hdblank, hd⟩) b
        (mem_artifactsOf.mpr ⟨e, List.mem_cons_of_mem d he.1, he.2, hartifact⟩)

/-- So the drafts are the same when the store has been loaded from before. -/
theorem drafts_draftsOf_draftsOf (h : Agreeing σ (artifactsOf definitions)) (s : σ) :
    (draftsOf (draftsOf s definitions).2 definitions).1 = (draftsOf s definitions).1 := by
  rw [drafts_draftsOf h, drafts_draftsOf h, store_draftsOf]
  refine List.map_congr_left fun d hd => ?_
  rw [List.mem_filter, Bool.not_eq_true'] at hd
  cases hartifact : d.artifact with
  | none => rfl
  | some b =>
    rw [resolveShape_foldl_prepare]
    exact fun a ha => h a ha b (mem_artifactsOf.mpr ⟨d, hd.1, hd.2, hartifact⟩)

variable [DefinitionSource δ] {e : Engine δ σ}

/-- **Loading a second time changes nothing.** If the definitions can be read, and artifacts that
share a place have the same settings, then whatever the texts are and whichever of them cannot be
read or written, both loads succeed with the same count, and the second ends with the regions and
the slots that the first one ended with. -/
theorem reload_reload (hload : DefinitionSource.load e.source = .ok definitions)
    (h : Agreeing σ (artifactsOf definitions)) :
    ∃ count, e.reload.1 = .ok count ∧ e.reload.2.reload.1 = .ok count ∧
      e.reload.2.reload.2.index = e.reload.2.index ∧
      slot e.reload.2.reload.2.store = slot e.reload.2.store := by
  have hload' : DefinitionSource.load e.reload.2.source = .ok definitions := by
    rw [source_reload hload, hload]
  have hdrafts : (draftsOf e.reload.2.store definitions).1 = (draftsOf e.store definitions).1 := by
    rw [store_reload hload, drafts_draftsOf_draftsOf h]
  refine ⟨(arrange (draftsOf e.store definitions).1).size, ?_, ?_, ?_, ?_⟩
  · rw [reload_eq hload]
  · rw [reload_eq hload', hdrafts]
  · rw [index_reload hload', hdrafts, index_reload hload]
  · rw [store_reload hload', store_reload hload, store_draftsOf, store_draftsOf,
      slot_foldl_prepare_twice h]

/-! ### A sky that two regions share -/

section Sky

/-- The artifact of the sky, which covers two worlds. -/
def skyArtifact : Artifact := { id := ⟨"sky"⟩, global := some { worlds := ["world", "nether"] } }

/-- The sky, and the clouds, which are below it and have its shape. -/
def skyRegions : List RegionDefinition :=
  [{ id := ⟨"sky"⟩, artifact := some skyArtifact },
    { id := ⟨"clouds"⟩, parent := some ⟨"sky"⟩, artifact := some skyArtifact }]

/-- A store whose text for the sky leaves everything to the settings. -/
def skyStore : MemoryStore := { blobs := SortedMap.insert ∅ skyArtifact.id "[]" }

/-- An engine that loads the sky. -/
def skyEngine : Engine MemorySource MemoryStore :=
  start { definitions := skyRegions } skyStore .standard 64 true

theorem artifactsOf_skyRegions : artifactsOf skyRegions = [skyArtifact, skyArtifact] := rfl

theorem agreeing_skyRegions : Agreeing MemoryStore (artifactsOf skyRegions) := by
  have hsky : ∀ a ∈ artifactsOf skyRegions, a = skyArtifact := by
    rw [artifactsOf_skyRegions]
    simp
  intro a ha b hb _
  rw [hsky a ha, hsky b hb]

theorem reload_reload_sky :
    DefinitionSource.load skyEngine.source = .ok skyRegions ∧
      Agreeing MemoryStore (artifactsOf skyRegions) ∧
      skyEngine.reload.2.reload.2.index = skyEngine.reload.2.index ∧
      skyEngine.reload.2.reload.2.store = skyEngine.reload.2.store := by
  have hload : DefinitionSource.load skyEngine.source = .ok skyRegions := rfl
  obtain ⟨count, -, -, hindex, hslot⟩ := reload_reload hload agreeing_skyRegions
  exact ⟨hload, agreeing_skyRegions, hindex, MemoryStore.eq_of_slot_eq hslot⟩

end Sky

end Engine

end RegionPolicy
