import Mathlib.Logic.Function.Basic
import RegionPolicy.Proofs.Loading
import RegionPolicy.Proofs.StoredShapes
import RegionPolicy.Store.Disk

/-!
# What loading does to stored texts

Loading the regions also writes: an artifact that has no text yet gets one to start with. Whether
there is a text is found out by reading, and a text that cannot be read counts as none. So a text
stays what it is as long as it can be read, and also as long as it cannot be written; but where it
can be written and not be read, the starting text takes its place.

A text that can be read and does not make sense is left alone, whatever it says.

## Main definitions

* `TextStore` — a store whose texts stay until something is written in their place.
* `startingText` — the text that an artifact starts with.
* `ArtifactStore.Exposed` — a text that can be written and not be read.
* `artifactsOf` — the artifacts that come up when definitions are loaded.
* `TextStore.Spared` — no artifact at a place is exposed when it comes up.

## Main results

* `TextStore.textAt_prepare_of_exposed`, `TextStore.textAt_prepare_of_not_exposed` — what one
  artifact does to the texts.
* `TextStore.textAt_foldl_prepare_iff` — what many artifacts do to one text.
* `Engine.textOf_loaded_iff` — which texts survive a load.
-/

namespace RegionPolicy

/-- A store whose texts stay until something is written in their place. -/
class TextStore (σ : Type) [ArtifactStore σ] where
  /-- Where the text of an artifact is kept. Two artifacts can share a place. -/
  place : ArtifactId → String
  /-- The text at a place, whether it can be read or not. -/
  textAt : σ → String → Option String
  /-- What is read is the text. -/
  textAt_of_read : ∀ {s : σ} {id : ArtifactId} {data : Option String},
    ArtifactStore.read s id = .ok data → textAt s (place id) = data
  /-- What is written is the text from then on; all others stay. -/
  textAt_of_written : ∀ {s s' : σ} {id : ArtifactId} {data : String},
    ArtifactStore.write s id data = (.ok (), s') →
      textAt s' = Function.update (textAt s) (place id) (some data)
  /-- What is not written changes no text. -/
  textAt_of_refused : ∀ {s s' : σ} {id : ArtifactId} {data : String} {failure : StoreError},
    ArtifactStore.write s id data = (.error failure, s') → textAt s' = textAt s

/-! ### The stores -/

instance : TextStore MemoryStore where
  place id := id.text
  textAt s name := s.blobs.get? ⟨name⟩
  textAt_of_read := by
    intro s id data h
    simp only [ArtifactStore.read] at h
    split at h
    · cases h
    · exact Except.ok.inj h
  textAt_of_written := by
    intro s s' id data h
    simp only [ArtifactStore.write] at h
    split at h
    · cases h
    · obtain rfl := (Prod.mk.inj h).2
      funext name
      rw [SortedMap.get?_insert, Function.update_apply]
      exact if_congr (by rw [ArtifactId.mk.injEq]) rfl rfl
  textAt_of_refused := by
    intro s s' id data failure h
    simp only [ArtifactStore.write] at h
    split at h
    · rw [(Prod.mk.inj h).2]
    · cases h

/-- The text of a file. -/
def DiskFile.content? : DiskFile → Option String
  | text content => some content
  | unreadable _ => none

instance : TextStore DiskStore where
  place := fileName
  textAt s name := (s.files.get? name).bind DiskFile.content?
  textAt_of_read := by
    intro s id data h
    simp only [ArtifactStore.read, DiskStore.readFile] at h
    split at h
    · split at h
      · cases h
      · exact Except.ok.inj h
    · cases h
    · split at h
      · cases h
      split at h
      · rename_i hfile
        rw [DiskStore.files, hfile]
        exact Except.ok.inj h
      · rename_i hfile
        rw [DiskStore.files, hfile]
        exact Except.ok.inj h
      · cases h
  textAt_of_written := by
    intro s s' id data h
    simp only [ArtifactStore.write, DiskStore.writeFile] at h
    split at h
    · cases h
    · obtain rfl := (Prod.mk.inj h).2
      funext name
      rw [DiskStore.files, SortedMap.get?_insert, Function.update_apply]
      split <;> rfl
  textAt_of_refused := by
    intro s s' id data failure h
    simp only [ArtifactStore.write, DiskStore.writeFile] at h
    split at h
    · rw [← (Prod.mk.inj h).2]
      simp only [DiskStore.files_withDirectory]
    · cases h

/-! ### One artifact -/

/-- The text that an artifact starts with: a cuboid without nodes. -/
def startingText : String := (SelectionPayload.ofSelection .cuboid []).toJson.render

theorem isBlank_startingText : Text.isBlank startingText = false :=
  StoredGeometry.isBlank_render_object _

namespace ArtifactStore

variable {σ : Type} [ArtifactStore σ] {s : σ} {a : Artifact} {t : String}

/-- A text that can be written and not be read. -/
def Exposed (s : σ) (id : ArtifactId) : Prop :=
  (∃ failure, read s id = .error failure) ∧ (write s id startingText).1 = .ok ()

theorem isStale_of_global_eq_none (ha : a.global = none) (data : String) :
    isStale a data = Text.isBlank data := by
  rw [isStale, ha, Bool.or_false]

theorem saveGeometry_of_global_eq_none (ha : a.global = none) (mode : SelectionMode)
    (nodes : List Position) :
    saveGeometry s a mode nodes =
      write s a.id (SelectionPayload.ofSelection mode nodes).toJson.render := by
  rw [saveGeometry, payloadText, ha]

/-- An artifact with a text that can be read is left alone, whatever the text says. -/
theorem prepare_of_read (ha : a.global = none) (hread : read s a.id = .ok (some t))
    (ht : Text.isBlank t = false) : prepare s a = s := by
  rw [prepare, text?, hread, isStale_of_global_eq_none ha, Option.getD_some, ht]
  rfl

/-- **Where a text cannot be read, the starting text is written.** -/
theorem prepare_of_unreadable (ha : a.global = none) {failure : StoreError}
    (hread : read s a.id = .error failure) : prepare s a = (write s a.id startingText).2 := by
  rw [prepare, text?, hread, isStale_of_global_eq_none ha, Option.getD_none,
    saveGeometry_of_global_eq_none ha]
  rfl

end ArtifactStore

namespace TextStore

open ArtifactStore

variable {σ : Type} [ArtifactStore σ] [TextStore σ] {s : σ} {a : Artifact} {p t : String}

/-- The text of an artifact. -/
def textOf (s : σ) (id : ArtifactId) : Option String := textAt s (place σ id)

/-- Writing a text leaves alone what is kept elsewhere. -/
theorem textAt_write_of_ne {id : ArtifactId} (hp : p ≠ place σ id) (data : String) :
    textAt (write s id data).2 p = textAt s p := by
  rcases hwrite : write s id data with ⟨failure | ⟨⟩, s'⟩
  · rw [textAt_of_refused hwrite]
  · rw [textAt_of_written hwrite, Function.update_of_ne hp]

theorem textAt_prepare_of_ne (hp : p ≠ place σ a.id) : textAt (prepare s a) p = textAt s p := by
  rw [prepare]
  split
  · exact textAt_write_of_ne hp _
  · rfl

theorem textAt_prepare_of_exposed (ha : a.global = none) (h : Exposed s a.id) :
    textAt (prepare s a) = Function.update (textAt s) (place σ a.id) (some startingText) := by
  obtain ⟨⟨failure, hread⟩, hwrite⟩ := h
  rw [prepare_of_unreadable ha hread]
  exact textAt_of_written (Prod.ext hwrite rfl)

theorem textAt_prepare_of_not_exposed (ha : a.global = none) (hs : textOf s a.id = some t)
    (ht : Text.isBlank t = false) (h : ¬ Exposed s a.id) : textAt (prepare s a) = textAt s := by
  cases hread : read s a.id with
  | ok data =>
    obtain rfl : some t = data := hs.symm.trans (textAt_of_read hread)
    rw [prepare_of_read ha hread ht]
  | error failure =>
    rw [prepare_of_unreadable ha hread]
    rcases hwrite : write s a.id startingText with ⟨refusal | ⟨⟩, s'⟩
    · exact textAt_of_refused hwrite
    · exact absurd ⟨⟨failure, hread⟩, congrArg Prod.fst hwrite⟩ h

/-! ### Many artifacts -/

/-- No artifact at a place is exposed when it comes up. -/
def Spared (p : String) : σ → List Artifact → Prop
  | _, [] => True
  | s, a :: rest => (place σ a.id = p → ¬ Exposed s a.id) ∧ Spared p (prepare s a) rest

/-- **What one artifact does to a text:** if the artifact is kept there and is exposed, the starting
text takes its place; else it stays. -/
theorem textAt_prepare (ha : place σ a.id = p → a.global = none) (hs : textAt s p = some t)
    (ht : Text.isBlank t = false) :
    (place σ a.id = p → ¬ Exposed s a.id) ∧ textAt (prepare s a) p = some t ∨
      (place σ a.id = p ∧ Exposed s a.id) ∧ textAt (prepare s a) p = some startingText := by
  by_cases hp : place σ a.id = p
  · subst hp
    by_cases h : Exposed s a.id
    · rw [textAt_prepare_of_exposed (ha rfl) h, Function.update_self]
      exact .inr ⟨⟨rfl, h⟩, rfl⟩
    · rw [textAt_prepare_of_not_exposed (ha rfl) hs ht h]
      exact .inl ⟨fun _ => h, hs⟩
  · rw [textAt_prepare_of_ne (Ne.symm hp)]
    exact .inl ⟨fun h => absurd h hp, hs⟩

/-- The starting text is never replaced. -/
theorem textAt_foldl_prepare_startingText {as : List Artifact}
    (has : ∀ a ∈ as, place σ a.id = p → a.global = none) (hs : textAt s p = some startingText) :
    textAt (as.foldl prepare s) p = some startingText := by
  induction as generalizing s with
  | nil => exact hs
  | cons a rest ih =>
    refine ih (fun b hb => has b (List.mem_cons_of_mem a hb)) ?_
    rcases textAt_prepare (has a List.mem_cons_self) hs isBlank_startingText with h | h
    · exact h.2
    · exact h.2

/-- **What many artifacts do to a text:** it stays if none of those that are kept there is exposed
when it comes up. Once the starting text is there, nothing changes any more. -/
theorem textAt_foldl_prepare_iff {as : List Artifact}
    (has : ∀ a ∈ as, place σ a.id = p → a.global = none) (hs : textAt s p = some t)
    (ht : Text.isBlank t = false) :
    textAt (as.foldl prepare s) p = some t ↔ t = startingText ∨ Spared p s as := by
  induction as generalizing s with
  | nil => exact iff_of_true hs (.inr trivial)
  | cons a rest ih =>
    have hrest : ∀ b ∈ rest, place σ b.id = p → b.global = none :=
      fun b hb => has b (List.mem_cons_of_mem a hb)
    rw [List.foldl_cons, Spared]
    rcases textAt_prepare (has a List.mem_cons_self) hs ht with ⟨hspared, hstays⟩ | ⟨h, hlost⟩
    · rw [ih hrest hstays, and_iff_right hspared]
    · have hnot : ¬ (place σ a.id = p → ¬ Exposed s a.id) := fun hspared => hspared h.1 h.2
      rw [textAt_foldl_prepare_startingText hrest hlost, Option.some.injEq]
      exact ⟨fun heq => .inl heq.symm, fun h => h.elim Eq.symm fun h => absurd h.1 hnot⟩

end TextStore

/-! ### Exposed texts in memory and on disk -/

open ArtifactStore TextStore

theorem MemoryStore.exposed_iff {s : MemoryStore} {id : ArtifactId} :
    Exposed s id ↔ s.unreadable.contains id = true ∧ s.unwritable.contains id = false := by
  simp only [Exposed, ArtifactStore.read, write]
  cases s.unreadable.contains id <;> cases s.unwritable.contains id <;> simp

namespace DiskStore

/-- **On disk no text is exposed:** a file that cannot be read holds no text, or its name is too
long to be written. -/
theorem not_exposed {s : DiskStore} {id : ArtifactId} {t : String} (hs : textOf s id = some t) :
    ¬ Exposed s id := by
  rintro ⟨⟨failure, hread⟩, hwrite⟩
  cases s with
  | absent => cases hs
  | blocked => cases hs
  | present files =>
    simp only [ArtifactStore.read, readFile] at hread
    split at hread
    · rename_i hlong
      simp only [write, writeFile, writeRefusal?, hlong, if_true] at hwrite
      cases hwrite
    split at hread
    · cases hread
    · cases hread
    · rename_i hfile
      have hnone : textOf (present files) id = none :=
        congrArg (fun file => Option.bind file DiskFile.content?) hfile
      cases hnone.symm.trans hs

/-- So on disk every text is spared. -/
theorem spared {s : DiskStore} {p t : String} {as : List Artifact}
    (has : ∀ a ∈ as, fileName a.id = p → a.global = none) (hs : textAt s p = some t)
    (ht : Text.isBlank t = false) : Spared p s as := by
  induction as generalizing s with
  | nil => trivial
  | cons a rest ih =>
    have hunexposed : fileName a.id = p → ¬ Exposed s a.id := by
      rintro rfl
      exact not_exposed hs
    refine ⟨hunexposed, ih (fun b hb => has b (List.mem_cons_of_mem a hb)) ?_⟩
    rcases textAt_prepare (has a List.mem_cons_self) hs ht with h | ⟨⟨hp, h⟩, -⟩
    · exact h.2
    · exact absurd h (hunexposed hp)

end DiskStore

/-! ### Loads -/

/-- The artifacts that come up when definitions are loaded. -/
def artifactsOf (definitions : List RegionDefinition) : List Artifact :=
  (definitions.filter fun d => !d.id.isBlank).filterMap RegionDefinition.artifact

namespace Engine

open ArtifactStore TextStore

variable {δ σ : Type}

/-- A load prepares one artifact after the other. -/
theorem store_draftsOf [ArtifactStore σ] (s : σ) (definitions : List RegionDefinition) :
    (draftsOf s definitions).2 = (artifactsOf definitions).foldl prepare s := by
  induction definitions generalizing s with
  | nil => rfl
  | cons d rest ih =>
    rw [draftsOf, artifactsOf, List.filter_cons]
    cases hblank : d.id.isBlank with
    | true => exact ih s
    | false =>
      cases hartifact : d.artifact with
      | none => simpa [artifactsOf, hartifact, resolveShape] using ih s
      | some a => simpa [artifactsOf, hartifact, resolveShape] using ih (prepare s a)

/-- Every draft has the shape that its artifact had when it came up. What is known of the store at
the beginning is known at that moment if no artifact disturbs it. -/
theorem exists_store_of_mem_draftsOf [ArtifactStore σ] {P : σ → Prop}
    {definitions : List RegionDefinition}
    (hP : ∀ s, P s → ∀ a ∈ artifactsOf definitions, P (prepare s a)) {s : σ} (hs : P s) {d : Draft}
    (hd : d ∈ (draftsOf s definitions).1) :
    ∃ s', P s' ∧ d.shape = (resolveShape s' d.definition.artifact).1 := by
  induction definitions generalizing s with
  | nil => cases hd
  | cons first rest ih =>
    cases hblank : first.id.isBlank with
    | true =>
      have hartifacts : artifactsOf (first :: rest) = artifactsOf rest := by
        simp [artifactsOf, hblank]
      rw [draftsOf, if_pos hblank] at hd
      exact ih (hartifacts ▸ hP) hs hd
    | false =>
      have hrest : ∀ a ∈ artifactsOf rest, a ∈ artifactsOf (first :: rest) := by
        intro a ha
        rw [artifactsOf, List.filter_cons_of_pos (by simp [hblank]), List.filterMap_cons]
        split
        · exact ha
        · exact List.mem_cons_of_mem _ ha
      have hnext : P (resolveShape s first.artifact).2 := by
        cases hartifact : first.artifact with
        | none => exact hs
        | some a =>
          exact hP s hs a (List.mem_filterMap.mpr ⟨first, by simp [hblank], hartifact⟩)
      rw [draftsOf, if_neg (by simp [hblank])] at hd
      rcases List.mem_cons.mp hd with rfl | hd
      · exact ⟨s, hs, rfl⟩
      · exact ih (fun s hs a ha => hP s hs a (hrest a ha)) hnext hd

variable [ArtifactStore σ] [TextStore σ] [DefinitionSource δ]

/-- **Which texts survive.** Preparing one artifact, resolving its shape and loading all regions
leave a text alone unless it can be written and not be read at that moment; then the starting text
takes its place. A load that fails changes nothing. -/
theorem textOf_loaded_iff {a : Artifact} (ha : a.global = none) {t : String}
    (ht : Text.isBlank t = false) :
    (∀ s : σ, textOf s a.id = some t →
      (textOf (prepare s a) a.id = some t ↔ t = startingText ∨ ¬ Exposed s a.id) ∧
        (textOf (resolveShape s (some a)).2 a.id = some t ↔
          t = startingText ∨ ¬ Exposed s a.id)) ∧
    ∀ e : Engine δ σ, textOf e.store a.id = some t →
      (∀ failure, DefinitionSource.load e.source = .error failure → e.reload.2.store = e.store) ∧
        ∀ definitions, DefinitionSource.load e.source = .ok definitions →
          (∀ b ∈ artifactsOf definitions, place σ b.id = place σ a.id → b.global = none) →
          (textOf e.reload.2.store a.id = some t ↔
            t = startingText ∨ Spared (place σ a.id) e.store (artifactsOf definitions)) := by
  have hprepare : ∀ s : σ, textOf s a.id = some t →
      (textOf (prepare s a) a.id = some t ↔ t = startingText ∨ ¬ Exposed s a.id) := by
    intro s hs
    have honly : ∀ b ∈ [a], place σ b.id = place σ a.id → b.global = none :=
      fun b hb _ => List.mem_singleton.mp hb ▸ ha
    refine (textAt_foldl_prepare_iff honly hs ht).trans (or_congr_right ?_)
    exact ⟨fun h => h.1 rfl, fun h => ⟨fun _ => h, trivial⟩⟩
  refine ⟨fun s hs => ⟨hprepare s hs, hprepare s hs⟩, fun e hs => ⟨fun failure hload => ?_,
    fun definitions hload hplain => ?_⟩⟩
  · rw [reload, hload]
  · rw [store_reload hload, store_draftsOf]
    exact textAt_foldl_prepare_iff hplain hs ht

/-! ### A meadow whose text cannot be read for a while -/

section Meadow

/-- Where the geometry of a meadow is stored. -/
def meadowArtifact : Artifact := { id := ⟨"meadow_shape"⟩ }

/-- The meadow. -/
def meadow : RegionDefinition := { id := ⟨"meadow"⟩, artifact := some meadowArtifact }

/-- The text of a box. -/
def meadowText : String :=
  (SelectionPayload.ofSelection .cuboid [⟨"world", 0, 0, 0⟩, ⟨"world", 10, 64, 10⟩]).toJson.render

/-- A store with the text of the meadow. -/
def meadowStore : MemoryStore := { blobs := SortedMap.insert ∅ meadowArtifact.id meadowText }

/-- The store while the text cannot be read, though it can be written. -/
def deafStore : MemoryStore := { meadowStore with unreadable := .ofList [meadowArtifact.id] }

/-- An engine that loads the meadow. -/
def meadowEngine (s : MemoryStore) : Engine MemorySource MemoryStore :=
  start { definitions := [meadow] } s .standard 64 true

theorem load_meadowEngine (s : MemoryStore) :
    DefinitionSource.load (meadowEngine s).source = .ok [meadow] := rfl

theorem global_artifactsOf_meadow {a : Artifact} (ha : a ∈ artifactsOf [meadow]) : a.global = none := by
  have hall : ∀ a ∈ artifactsOf [meadow], a.global = none := by decide
  exact hall a ha

theorem isBlank_meadowText : Text.isBlank meadowText = false :=
  StoredGeometry.isBlank_render_object _

theorem meadowText_ne_startingText : meadowText ≠ startingText := by
  decide +kernel

theorem textOf_loaded_iff_meadow :
    textOf meadowStore meadowArtifact.id = some meadowText ∧
      textOf (meadowEngine meadowStore).reload.2.store meadowArtifact.id = some meadowText := by
  have hs : textOf meadowStore meadowArtifact.id = some meadowText := rfl
  have hspared : Spared (place MemoryStore meadowArtifact.id) meadowStore (artifactsOf [meadow]) := by
    refine ⟨fun _ h => ?_, trivial⟩
    obtain ⟨failure, hread⟩ := h.1
    cases hread
  obtain ⟨-, hload⟩ := textOf_loaded_iff (δ := MemorySource) (σ := MemoryStore)
    (a := meadowArtifact) rfl isBlank_meadowText
  have hiff := (hload (meadowEngine meadowStore) hs).2 [meadow] (load_meadowEngine meadowStore)
    fun b hb _ => global_artifactsOf_meadow hb
  exact ⟨hs, hiff.mpr (.inr hspared)⟩

/-- **A text can be lost by loading.** It could not be read, but it could be written. -/
theorem textOf_loaded_deaf :
    textOf deafStore meadowArtifact.id = some meadowText ∧ Text.isBlank meadowText = false ∧
      (meadowEngine deafStore).reload.1 = .ok 1 ∧
      textOf (meadowEngine deafStore).reload.2.store meadowArtifact.id = some startingText ∧
      meadowText ≠ startingText := by
  refine ⟨rfl, isBlank_meadowText, ?_, ?_, meadowText_ne_startingText⟩
  · decide +kernel
  · decide +kernel

end Meadow

end Engine

end RegionPolicy
