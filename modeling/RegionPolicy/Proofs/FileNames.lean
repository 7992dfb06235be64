import RegionPolicy.Proofs.Slots
import RegionPolicy.Proofs.Survival

/-!
# Texts under file names

A store that does not fail answers a read with the text last written at the place of the artifact.
In memory the place is the id, so what is read for an artifact was written for it. In a directory
the place is a file name, in which characters that do not suit one have given way to an underscore,
and two artifacts share a file if they differ in nothing but such characters. Then what was written
for the one is read for the other: a text shows up for an artifact that none was ever written for,
or takes the place of its own.

So the two stores answer a run alike just if, at every read in it, the text last written to the file
is the one last written for the artifact; and they answer alike whatever is asked of them just if
all the artifacts in question have file names of their own. Artifacts whose ids consist of suitable
characters do.

That a file system does not fail is asked for only where it matters, for the artifacts in question:
a directory refuses file names that are too long.

## Main definitions

* `StoreCall`, `ArtifactStore.replies` — calls of a store, and what it answers to a run of them.
* `lastWritten` — the text that was written last in a run, of those at some artifacts.

## Main results

* `ArtifactStore.Dependable.textAt_afterCalls` — the texts after a run.
* `ArtifactStore.Dependable.reply` — how a store answers after a run.
* `ArtifactStore.replies_eq_iff` — when two stores answer a run alike.
* `fileName_eq_iff`, `fileName_inj_of_suits` — when two artifacts share a file.
* `ArtifactStore.files_answer_as_memory_iff` — when files answer as memory does.
-/

namespace RegionPolicy

open TextStore

/-! ### Calls -/

/-- A call of a store. -/
inductive StoreCall where
  | read (id : ArtifactId)
  | write (id : ArtifactId) (data : String)

/-- What a store answers to a call. -/
inductive StoreReply where
  | found (result : Except StoreError (Option String))
  | written (result : Except StoreError Unit)

namespace StoreCall

/-- The artifact that a call is about. -/
def target : StoreCall → ArtifactId
  | read id => id
  | write id _ => id

/-- The text that a call writes, if it is for one of some artifacts. -/
def textFor (p : ArtifactId → Bool) : StoreCall → Option String
  | read _ => none
  | write id data => if p id then some data else none

end StoreCall

/-- The text that was written last in a run of calls, of those for some artifacts. -/
def lastWritten (p : ArtifactId → Bool) (calls : List StoreCall) : Option String :=
  (calls.filterMap (StoreCall.textFor p)).getLast?

theorem lastWritten_cons (p : ArtifactId → Bool) (call : StoreCall) (rest : List StoreCall) :
    lastWritten p (call :: rest) = (lastWritten p rest).or (call.textFor p) := by
  rw [lastWritten, List.filterMap_cons]
  cases htext : call.textFor p with
  | none => rw [Option.or_none, lastWritten]
  | some data =>
    dsimp only
    rw [List.getLast?_cons, lastWritten]
    cases (rest.filterMap (StoreCall.textFor p)).getLast? <;> rfl

namespace ArtifactStore

variable {σ τ : Type} [ArtifactStore σ] [ArtifactStore τ]

/-- The answer to one call, and the store that it leaves behind. -/
def reply (s : σ) : StoreCall → StoreReply × σ
  | .read target => (.found (read s target), s)
  | .write target data => (write s target data).map .written id

/-- A store after a run of calls. -/
def afterCalls (s : σ) (calls : List StoreCall) : σ :=
  calls.foldl (fun s call => (reply s call).2) s

/-- The answers to a run of calls. -/
def replies (s : σ) : List StoreCall → List StoreReply
  | [] => []
  | call :: rest => (reply s call).1 :: replies (reply s call).2 rest

/-! ### Stores that do not fail -/

namespace Dependable

variable {named : ArtifactId → Prop}

/-- **The texts after a run** are those written last at each place, or else those from before. -/
theorem textAt_afterCalls [TextStore σ] {s : σ} (hs : Dependable named s) {calls : List StoreCall}
    (hcalls : ∀ call ∈ calls, named call.target) :
    Dependable named (afterCalls s calls) ∧
      ∀ p, textAt (afterCalls s calls) p =
        (lastWritten (fun id => place σ id = p) calls).or (textAt s p) := by
  induction calls generalizing s with
  | nil => exact ⟨hs, fun _ => rfl⟩
  | cons call rest ih =>
    have hrest : ∀ call ∈ rest, named call.target :=
      fun other hother => hcalls other (List.mem_cons_of_mem call hother)
    cases call with
    | read target =>
      obtain ⟨hleft, htexts⟩ := ih hs hrest
      refine ⟨hleft, fun p => ?_⟩
      rw [lastWritten_cons, StoreCall.textFor, Option.or_none, ← htexts p]
      rfl
    | write target data =>
      have htarget : named target := hcalls (.write target data) List.mem_cons_self
      obtain ⟨s', hwrite, hs'⟩ := hs.exists_write htarget data
      have hafter : afterCalls s (.write target data :: rest) = afterCalls s' rest := by
        rw [afterCalls, List.foldl_cons, reply, hwrite]
        rfl
      obtain ⟨hleft, htexts⟩ := ih hs' hrest
      rw [hafter]
      refine ⟨hleft, fun p => ?_⟩
      rw [htexts p, lastWritten_cons, Option.or_assoc, textAt_of_written hwrite,
        Function.update_apply, StoreCall.textFor]
      by_cases hp : place σ target = p
      · simp [hp]
      · simp [hp, Ne.symm hp]

/-- **How a store answers after a run:** what is read is the text last written at the place, and
every write succeeds. -/
theorem reply [TextStore σ] {s : σ} (hs : Dependable named s) (hempty : ∀ p, textAt s p = none)
    {calls : List StoreCall} (hcalls : ∀ call ∈ calls, named call.target) {target : ArtifactId}
    (htarget : named target) :
    read (afterCalls s calls) target =
        .ok (lastWritten (fun id => place σ id = place σ target) calls) ∧
      ∀ data, (write (afterCalls s calls) target data).1 = .ok () := by
  obtain ⟨hleft, htexts⟩ := hs.textAt_afterCalls hcalls
  refine ⟨?_, fun data => ?_⟩
  · obtain ⟨data, hread⟩ := hleft.exists_read htarget
    rw [hread, ← textAt_of_read hread, htexts, hempty, Option.or_none]
  · obtain ⟨s', hwrite, -⟩ := hleft.exists_write htarget data
    rw [hwrite]

end Dependable

/-- What holds of all reads in a run holds of the first call, if it is a read, and of the others. -/
theorem forall_reads_cons_iff {P : List StoreCall → ArtifactId → Prop} {call : StoreCall}
    {calls : List StoreCall} :
    (∀ before target rest, call :: calls = before ++ .read target :: rest → P before target) ↔
      (∀ target, call = .read target → P [] target) ∧
        ∀ before target rest, calls = before ++ .read target :: rest →
          P (call :: before) target := by
  constructor
  · refine fun h => ⟨fun target hcall => h [] target calls (by rw [hcall]; rfl), ?_⟩
    exact fun before target rest heq => h (call :: before) target rest (congrArg (call :: ·) heq)
  · rintro ⟨hfirst, hothers⟩ before target rest heq
    rcases List.cons_eq_append_iff.mp heq with ⟨rfl, hread⟩ | ⟨more, rfl, hmore⟩
    · exact hfirst target (List.cons.inj hread).1.symm
    · exact hothers more target rest hmore

/-- In a run for some artifacts, what is read is one of them, and so is what comes before it. -/
theorem named_of_eq_append {named : ArtifactId → Prop} {calls before rest : List StoreCall}
    {target : ArtifactId} (hcalls : ∀ call ∈ calls, named call.target)
    (heq : calls = before ++ .read target :: rest) :
    (∀ call ∈ before, named call.target) ∧ named target := by
  subst heq
  exact ⟨fun call hcall => hcalls call (List.mem_append_left _ hcall),
    hcalls (.read target) (List.mem_append_right before List.mem_cons_self)⟩

/-- **Two stores that do not fail answer a run alike** just if they answer the reads in it alike. -/
theorem replies_eq_iff {named : ArtifactId → Prop} {s : σ} {t : τ} (hs : Dependable named s)
    (ht : Dependable named t) {calls : List StoreCall}
    (hcalls : ∀ call ∈ calls, named call.target) :
    replies s calls = replies t calls ↔
      ∀ before target rest, calls = before ++ .read target :: rest →
        read (afterCalls s before) target = read (afterCalls t before) target := by
  induction calls generalizing s t with
  | nil => simp [replies]
  | cons call rest ih =>
    have hrest : ∀ call ∈ rest, named call.target :=
      fun other hother => hcalls other (List.mem_cons_of_mem call hother)
    rw [forall_reads_cons_iff, replies, replies, List.cons.injEq]
    cases call with
    | read target =>
      refine and_congr ?_ (ih hs ht hrest)
      simp [reply, afterCalls]
    | write target data =>
      have htarget : named target := hcalls (.write target data) List.mem_cons_self
      obtain ⟨s', hwrite, hs'⟩ := hs.exists_write htarget data
      obtain ⟨t', hwrite', ht'⟩ := ht.exists_write htarget data
      have hleft : (reply s (.write target data)).2 = s' := by rw [reply, hwrite]; rfl
      have hleft' : (reply t (.write target data)).2 = t' := by rw [reply, hwrite']; rfl
      refine and_congr ?_ ?_
      · simp [reply, hwrite, hwrite']
      · rw [hleft, hleft', ih hs' ht' hrest]
        simp only [afterCalls, List.foldl_cons, hleft, hleft']

end ArtifactStore

/-! ### File names -/

/-- Two artifacts share a file just if their ids are the same once the unsuitable characters have
given way. -/
theorem fileName_eq_iff {id id' : ArtifactId} :
    fileName id = fileName id' ↔
      id.text.toList.map fileNameChar = id'.text.toList.map fileNameChar := by
  rw [fileName, fileName, ← String.toList_inj, String.toList_append, String.toList_append,
    List.append_left_inj, String.toList_ofList, String.toList_ofList]

/-- All characters of an id suit a file name. -/
def ArtifactId.Suits (id : ArtifactId) : Prop := ∀ c ∈ id.text.toList, fileNameChar c = c

/-- **Artifacts with suitable ids have files of their own.** -/
theorem fileName_inj_of_suits {id id' : ArtifactId} (h : id.Suits) (h' : id'.Suits)
    (hname : fileName id = fileName id') : id = id' := by
  rw [fileName_eq_iff, List.map_congr_left h, List.map_congr_left h', List.map_id', List.map_id',
    String.toList_inj] at hname
  exact congrArg ArtifactId.mk hname

/-! ### Files and memory -/

namespace ArtifactStore

variable {σ : Type} [ArtifactStore σ] [TextStore σ] {named : ArtifactId → Prop} {s : σ}

theorem dependable_empty (named : ArtifactId → Prop) : Dependable named ({} : MemoryStore) :=
  Dependable.of_memoryStore fun _ _ => ⟨rfl, rfl⟩

/-- In memory, what is read for an artifact is the text last written for it. -/
theorem read_afterCalls_empty (calls : List StoreCall) (target : ArtifactId) :
    read (afterCalls ({} : MemoryStore) calls) target =
      .ok (lastWritten (fun id => id = target) calls) := by
  have hread : read (afterCalls ({} : MemoryStore) calls) target =
      .ok (lastWritten (fun id => place MemoryStore id = place MemoryStore target) calls) :=
    ((dependable_empty fun _ => True).reply (fun _ => rfl) (fun _ _ => trivial) trivial).1
  simpa only [MemoryStore.place_inj] using hread

section Files

variable (hplace : ∀ id, place σ id = fileName id) (hs : Dependable named s)
  (hempty : ∀ p, textAt s p = none)
include hplace hs hempty

/-- In files, what is read for an artifact is the text last written under its file name. -/
theorem read_afterCalls_fileName {calls : List StoreCall}
    (hcalls : ∀ call ∈ calls, named call.target) {target : ArtifactId} (htarget : named target) :
    read (afterCalls s calls) target =
      .ok (lastWritten (fun id => fileName id = fileName target) calls) := by
  simpa only [hplace] using (hs.reply hempty hcalls htarget).1

/-- A run is answered as in memory just if, at each read in it, the text last written under the file
name is the one last written for the artifact. -/
theorem replies_eq_empty_iff {calls : List StoreCall}
    (hcalls : ∀ call ∈ calls, named call.target) :
    replies s calls = replies ({} : MemoryStore) calls ↔
      ∀ before target rest, calls = before ++ .read target :: rest →
        lastWritten (fun id => fileName id = fileName target) before =
          lastWritten (fun id => id = target) before := by
  rw [replies_eq_iff hs (dependable_empty named) hcalls]
  refine forall₄_congr fun before target rest heq => ?_
  obtain ⟨hbefore, htarget⟩ := named_of_eq_append hcalls heq
  rw [read_afterCalls_fileName hplace hs hempty hbefore htarget, read_afterCalls_empty,
    Except.ok.injEq]

/-- Every run is answered as in memory just if all artifacts have file names of their own. -/
theorem forall_replies_eq_empty_iff :
    (∀ calls, (∀ call ∈ calls, named call.target) →
        replies s calls = replies ({} : MemoryStore) calls) ↔
      ∀ id id', named id → named id' → fileName id = fileName id' → id = id' := by
  constructor
  · intro h id id' hid hid' hname
    by_contra hne
    -- what is written for the one is read for the other
    have hcalls : ∀ call ∈ [StoreCall.write id "", .read id'], named call.target := by
      simpa [StoreCall.target] using ⟨hid, hid'⟩
    have hlast := (replies_eq_empty_iff hplace hs hempty hcalls).mp (h _ hcalls)
      [.write id ""] id' [] rfl
    simp [lastWritten, StoreCall.textFor, hname, hne] at hlast
  · intro hinj calls hcalls
    rw [replies_eq_empty_iff hplace hs hempty hcalls]
    intro before target rest heq
    obtain ⟨hbefore, htarget⟩ := named_of_eq_append hcalls heq
    have hsame : ∀ call ∈ before,
        call.textFor (fun id => fileName id = fileName target) =
          call.textFor fun id => id = target := by
      intro call hcall
      cases call with
      | read id => rfl
      | write id data =>
        have hiff : fileName id = fileName target ↔ id = target :=
          ⟨hinj id target (hbefore _ hcall) htarget, congrArg fileName⟩
        simp only [StoreCall.textFor, hiff]
    rw [lastWritten, lastWritten, List.filterMap_congr hsame]

/-- **When files answer as memory does.** Over a file system that keeps the text last written to
each file and does not fail, where nothing was written so far: what is read for an artifact is the
text last written under its file name, in memory it is the one last written for it, and writes
succeed. So a run of calls is answered as in memory just if at each read in it these are the same;
every run is, just if no two of the artifacts share a file name, which they do not if all characters
of their ids suit one. -/
theorem files_answer_as_memory_iff :
    (∀ calls, (∀ call ∈ calls, named call.target) →
      (∀ target, named target →
        read (afterCalls s calls) target =
            .ok (lastWritten (fun id => fileName id = fileName target) calls) ∧
          read (afterCalls ({} : MemoryStore) calls) target =
            .ok (lastWritten (fun id => id = target) calls) ∧
          ∀ data, (write (afterCalls s calls) target data).1 = .ok ()) ∧
      (replies s calls = replies ({} : MemoryStore) calls ↔
        ∀ before target rest, calls = before ++ .read target :: rest →
          lastWritten (fun id => fileName id = fileName target) before =
            lastWritten (fun id => id = target) before)) ∧
    ((∀ calls, (∀ call ∈ calls, named call.target) →
        replies s calls = replies ({} : MemoryStore) calls) ↔
      ∀ id id', named id → named id' → fileName id = fileName id' → id = id') ∧
    ((∀ id, named id → id.Suits) → ∀ calls, (∀ call ∈ calls, named call.target) →
      replies s calls = replies ({} : MemoryStore) calls) := by
  have hiff := forall_replies_eq_empty_iff hplace hs hempty
  refine ⟨fun calls hcalls => ⟨fun target htarget => ?_, ?_⟩, hiff, fun hsuits => ?_⟩
  · exact ⟨read_afterCalls_fileName hplace hs hempty hcalls htarget,
      read_afterCalls_empty calls target, (hs.reply hempty hcalls htarget).2⟩
  · exact replies_eq_empty_iff hplace hs hempty hcalls
  · exact hiff.mpr fun id id' hid hid' => fileName_inj_of_suits (hsuits id hid) (hsuits id' hid')

end Files

end ArtifactStore

/-! ### A directory that is not there yet -/

namespace DiskStore

/-- Nothing in the place of the directory hinders reading and writing: it is not there, or all that
is in it are texts. -/
def Free : DiskStore → Prop
  | absent => True
  | blocked => False
  | present files => ∀ name file, files.get? name = some file → ∃ content, file = .text content

theorem exists_readFile {s : DiskStore} (h : s.Free) {name : String}
    (hname : isTooLong name = false) : ∃ data, s.readFile name = .ok data := by
  cases s with
  | absent =>
    have hpath : isBeyondPaths name = false := by
      have hsize : ¬ maxFileNameSize < name.utf8ByteSize := of_decide_eq_false hname
      have hbound : ¬ maxPathSize < name.utf8ByteSize := by
        rw [maxFileNameSize] at hsize
        rw [maxPathSize]
        omega
      exact decide_eq_false hbound
    exact ⟨none, by rw [readFile, hpath]; rfl⟩
  | blocked => exact h.elim
  | present files =>
    cases hfile : files.get? name with
    | none => exact ⟨none, by simp only [readFile, hname, hfile]; rfl⟩
    | some file =>
      obtain ⟨content, rfl⟩ := h name file hfile
      exact ⟨some content, by simp only [readFile, hname, hfile]; rfl⟩

theorem Free.exists_content {s : DiskStore} (h : s.Free) {name : String} {file : DiskFile}
    (hfile : s.files.get? name = some file) : ∃ content, file = .text content := by
  cases s with
  | absent => cases hfile
  | blocked => exact h.elim
  | present files => exact h name file hfile

theorem Free.writeRefusal?_eq_none {s : DiskStore} (h : s.Free) {name : String}
    (hname : isTooLong name = false) : s.writeRefusal? name = none := by
  have htext : s.files.get? name ≠ some .directory := fun hfile => by
    obtain ⟨content, hcontent⟩ := h.exists_content hfile
    cases hcontent
  cases s with
  | blocked => exact h.elim
  | absent | present files =>
    simp only [writeRefusal?, hname, Bool.false_eq_true, if_false, if_neg htext]

theorem exists_writeFile {s : DiskStore} (h : s.Free) {name : String}
    (hname : isTooLong name = false) (content : String) :
    ∃ s', s.writeFile name content = (.ok (), s') ∧ s'.Free := by
  have hrefusal := h.writeRefusal?_eq_none hname
  refine ⟨present (s.files.insert name (.text content)), by simp only [writeFile, hrefusal], ?_⟩
  intro other file hfile
  rw [SortedMap.get?_insert] at hfile
  split at hfile
  · exact ⟨content, (Option.some.inj hfile).symm⟩
  · exact h.exists_content hfile

/-- A directory does not fail for files whose names are not too long. -/
theorem Free.dependable {s : DiskStore} (h : s.Free) :
    ArtifactStore.Dependable (fun id => isTooLong (fileName id) = false) s :=
  ⟨Free, h, fun _ hs _ hid => ⟨exists_readFile hs hid, exists_writeFile hs hid⟩⟩

end DiskStore

section Spawn

open ArtifactStore

/-- What is written to a new directory for an artifact is read for it, and nothing else is. -/
theorem files_answer_as_memory_iff_spawn :
    read (afterCalls DiskStore.absent [.write ⟨"spawn"⟩ "here"]) ⟨"spawn"⟩ = .ok (some "here") ∧
      read (afterCalls DiskStore.absent [.write ⟨"spawn"⟩ "here"]) ⟨"market"⟩ = .ok none := by
  have hshort : ∀ id ∈ [(⟨"spawn"⟩ : ArtifactId), ⟨"market"⟩],
      DiskStore.isTooLong (fileName id) = false := by decide
  obtain ⟨hruns, -, -⟩ := files_answer_as_memory_iff (σ := DiskStore) (fun _ => rfl)
    (DiskStore.Free.dependable (s := .absent) trivial) fun _ => rfl
  obtain ⟨hreads, -⟩ := hruns [.write ⟨"spawn"⟩ "here"] fun call hcall => by
    obtain rfl := List.mem_singleton.mp hcall
    exact hshort ⟨"spawn"⟩ List.mem_cons_self
  refine ⟨(hreads ⟨"spawn"⟩ (hshort _ (by simp))).1.trans ?_,
    (hreads ⟨"market"⟩ (hshort _ (by simp))).1.trans ?_⟩
  · decide +kernel
  · decide +kernel

/-- **What was written for one artifact can be read for another.** -/
theorem spawn_shape_shared :
    read (afterCalls DiskStore.absent [.write ⟨"spawn/shape"⟩ "here"]) ⟨"spawn_shape"⟩ =
        .ok (some "here") ∧
      read (afterCalls ({} : MemoryStore) [.write ⟨"spawn/shape"⟩ "here"]) ⟨"spawn_shape"⟩ =
        .ok none ∧
      lastWritten (fun id => id = ⟨"spawn_shape"⟩) [.write ⟨"spawn/shape"⟩ "here"] = none := by
  refine ⟨?_, ?_, ?_⟩
  · decide +kernel
  · decide +kernel
  · decide +kernel

end Spawn

end RegionPolicy
