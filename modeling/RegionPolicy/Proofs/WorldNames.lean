import RegionPolicy.Proofs.Collections
import RegionPolicy.Proofs.Worldwide

/-!
# The different names of a list

Whether a name is kept depends on all names before it: one with the same key must not have been among
them. So the list of the different names is looked at from its end. One more name either changes
nothing or comes behind all others, and it changes nothing just when it is blank or its key is known.
What holds of the different names of every list is then shown one name at a time.

The key may be any function at all. In particular nothing is asked of the lower case of a name; it may
be that of any script.

## Main definitions

* `plainNames` — the names that are not blank, trimmed. This is what the different names are the first
  ones of.

## Main results

* `dedupeNames_append_singleton` — the different names of a list with one more name.
* `firstOccurrences_dedupeNames`, `find?_plainNames` — which names are kept: of each key the first.
* `dedupeNames_append_dedupeNames` — a list may be replaced by its different names before another list
  comes behind it.
* `dedupeNames_lawful` — all of it together.
-/

namespace RegionPolicy

variable {key : String → String} {name : String} {names : List String}

/-- The names that are not blank, trimmed. -/
def plainNames (names : List String) : List String := (names.map Text.trim).filter (· ≠ "")

theorem plainNames_append (names more : List String) :
    plainNames (names ++ more) = plainNames names ++ plainNames more := by
  rw [plainNames, List.map_append, List.filter_append, plainNames, plainNames]

theorem plainNames_of_blank (h : Text.trim name = "") : plainNames [name] = [] := by
  simp [plainNames, h]

theorem plainNames_of_not_blank (h : Text.trim name ≠ "") :
    plainNames [name] = [Text.trim name] := by
  simp [plainNames, h]

theorem mem_plainNames :
    name ∈ plainNames names ↔ (∃ written ∈ names, Text.trim written = name) ∧ name ≠ "" := by
  simp [plainNames]

/-! ### One more name -/

/-- Names that come behind others are told from these and from what was seen before. -/
theorem dedupeNamesFrom_append (key : String → String) (seen names more : List String) :
    dedupeNamesFrom key seen (names ++ more) = dedupeNamesFrom key seen names ++
      dedupeNamesFrom key (((dedupeNamesFrom key seen names).map key).reverse ++ seen) more := by
  induction names generalizing seen with
  | nil => rfl
  | cons name rest ih =>
    rw [List.cons_append, dedupeNamesFrom, dedupeNamesFrom]
    by_cases hskip : Text.trim name = "" ∨ key (Text.trim name) ∈ seen
    · rw [if_pos hskip, if_pos hskip, ih]
    · rw [if_neg hskip, if_neg hskip, ih, List.cons_append, List.map_cons, List.reverse_cons,
        List.append_assoc, List.singleton_append]

theorem dedupeNames_append (key : String → String) (names more : List String) :
    dedupeNames key (names ++ more) = dedupeNames key names ++
      dedupeNamesFrom key ((dedupeNames key names).map key).reverse more := by
  rw [dedupeNames, dedupeNamesFrom_append, List.append_nil, dedupeNames]

/-- **One more name** is left out if it is blank or its key is known. -/
theorem dedupeNames_append_singleton (key : String → String) (names : List String) (name : String) :
    dedupeNames key (names ++ [name]) =
      if Text.trim name = "" ∨ key (Text.trim name) ∈ (dedupeNames key names).map key then
        dedupeNames key names
      else dedupeNames key names ++ [Text.trim name] := by
  simp only [dedupeNames_append, dedupeNamesFrom, List.mem_reverse]
  split
  · rw [List.append_nil]
  · rfl

/-! ### The first of each key -/

/-- **The keys of the different names are the keys of all, in the order of their first
occurrences.** -/
theorem firstOccurrences_dedupeNames (key : String → String) (names : List String) :
    FirstOccurrences ((dedupeNames key names).map key) ((plainNames names).map key) := by
  induction names using List.reverseRecOn with
  | nil => exact FirstOccurrences.nil
  | append_singleton rest name ih =>
    rw [dedupeNames_append_singleton, plainNames_append, List.map_append]
    by_cases hblank : Text.trim name = ""
    · rw [if_pos (.inl hblank), plainNames_of_blank hblank, List.map_nil, List.append_nil]
      exact ih
    · rw [plainNames_of_not_blank hblank]
      by_cases hknown : key (Text.trim name) ∈ (dedupeNames key rest).map key
      · rw [if_pos (.inr hknown)]
        exact ih.append_known (ih.mem_iff.mp hknown)
      · rw [if_neg (not_or.mpr ⟨hblank, hknown⟩), List.map_append]
        exact ih.append_new fun hplain => hknown (ih.mem_iff.mpr hplain)

/-- **Each of the different names is the first one with its key,** in the spelling it has there. -/
theorem find?_plainNames (h : name ∈ dedupeNames key names) :
    ((plainNames names).find? fun other => key other = key name) = some name := by
  induction names using List.reverseRecOn with
  | nil => cases h
  | append_singleton rest last ih =>
    rw [plainNames_append, List.find?_append]
    rw [dedupeNames_append_singleton] at h
    split at h
    · rw [ih h, Option.some_or]
    · rename_i hnew
      obtain ⟨hblank, hunknown⟩ := not_or.mp hnew
      rcases List.mem_append.mp h with h | h
      · rw [ih h, Option.some_or]
      · obtain rfl := List.mem_singleton.mp h
        have hnone : ((plainNames rest).find? fun other => key other = key (Text.trim last)) =
            none := by
          refine List.find?_eq_none.mpr fun other hother hkey => hunknown ?_
          refine (firstOccurrences_dedupeNames key rest).mem_iff.mpr ?_
          exact of_decide_eq_true hkey ▸ List.mem_map_of_mem hother
        rw [hnone, plainNames_of_not_blank hblank, Option.none_or]
        exact List.find?_cons_of_pos (decide_eq_true rfl)

/-- Each of the different names is one of the list, trimmed, and none is empty. -/
theorem mem_plainNames_of_mem_dedupeNames (h : name ∈ dedupeNames key names) :
    name ∈ plainNames names :=
  List.mem_of_find?_eq_some (find?_plainNames h)

theorem trim_eq_of_mem_dedupeNames (h : name ∈ dedupeNames key names) :
    Text.trim name = name ∧ name ≠ "" := by
  obtain ⟨⟨written, -, rfl⟩, hne⟩ := mem_plainNames.mp (mem_plainNames_of_mem_dedupeNames h)
  exact ⟨Text.trim_trim written, hne⟩

/-! ### Lists behind each other -/

theorem dedupeNames_dedupeNames (key : String → String) (names : List String) :
    dedupeNames key (dedupeNames key names) = dedupeNames key names :=
  dedupeNamesFrom_dedupeNamesFrom key [] names

/-- **A list may be replaced by its different names** before another comes behind it. -/
theorem dedupeNames_append_dedupeNames (key : String → String) (names more : List String) :
    dedupeNames key (names ++ more) = dedupeNames key (dedupeNames key names ++ more) := by
  rw [dedupeNames_append, dedupeNames_append key (dedupeNames key names), dedupeNames_dedupeNames]

/-- **The laws of the different names,** under any key, of which the lower case is one. They are
trimmed and not empty; no two have one key; they come in the order in which their keys come first
among the names that are not blank, and each as it is spelt there. No key is lost: every name that is
not blank has one name in the list that stands for it. The different names of the different names are
themselves, and a list may be replaced by its different names before another comes behind it. -/
theorem dedupeNames_lawful :
    (∀ worlds, dedupeWorlds worlds = dedupeNames Text.lowercase worlds) ∧
      ∀ (key : String → String) (names : List String),
        let distinct := dedupeNames key names
        (∀ name ∈ distinct, Text.trim name = name ∧ name ≠ "") ∧
          (distinct.map key).Nodup ∧
          (distinct.map key).Pairwise (fun k k' =>
            ((plainNames names).map key).idxOf k < ((plainNames names).map key).idxOf k') ∧
          (∀ name ∈ distinct,
            ((plainNames names).find? fun other => key other = key name) = some name) ∧
          (∀ name ∈ names, Text.isBlank name = false →
            (distinct.map key).count (key (Text.trim name)) = 1) ∧
          dedupeNames key distinct = distinct ∧
          ∀ more, dedupeNames key (names ++ more) = dedupeNames key (distinct ++ more) := by
  refine ⟨fun _ => rfl, fun key names => ?_⟩
  have hkeys := firstOccurrences_dedupeNames key names
  refine ⟨fun _ => trim_eq_of_mem_dedupeNames, hkeys.nodup, hkeys.ordered,
    fun _ => find?_plainNames, fun name hname hblank => ?_, dedupeNames_dedupeNames key names,
    dedupeNames_append_dedupeNames key names⟩
  have hne : Text.trim name ≠ "" := fun h =>
    absurd (Text.isBlank_iff.mpr h) (Bool.eq_false_iff.mp hblank)
  have hplain : Text.trim name ∈ plainNames names := mem_plainNames.mpr ⟨⟨name, hname, rfl⟩, hne⟩
  exact List.count_eq_one_of_mem hkeys.nodup (hkeys.mem_iff.mpr (List.mem_map_of_mem hplain))

/-- Of two spellings of one world the first stays, trimmed, and a blank name does not. -/
theorem dedupeNames_lawful_spellings :
    let names := [" World", "", "world ", "End"]
    Text.isBlank "world " = false ∧ dedupeWorlds names = ["World", "End"] ∧
      "World" ∈ dedupeNames Text.lowercase names ∧
      ((plainNames names).find? fun other => Text.lowercase other = "world") = some "World" ∧
      ((dedupeWorlds names).map Text.lowercase).count "world" = 1 ∧
      dedupeWorlds (names ++ ["end", "Nether"]) = dedupeWorlds (["World", "End"] ++ ["end", "Nether"])
        := by
  intro names
  obtain ⟨hworlds, hlaws⟩ := dedupeNames_lawful
  obtain ⟨-, -, -, hfirst, hcount, -, happend⟩ := hlaws Text.lowercase names
  have hdistinct : dedupeNames Text.lowercase names = ["World", "End"] := by decide +kernel
  have hmem : "World" ∈ dedupeNames Text.lowercase names := hdistinct ▸ List.mem_cons_self
  have hblank : Text.isBlank "world " = false := by decide +kernel
  have hkey : Text.lowercase (Text.trim "world ") = "world" := by decide +kernel
  refine ⟨hblank, hdistinct, hmem, ?_, ?_, ?_⟩
  · have hworld : Text.lowercase "World" = "world" := by decide +kernel
    rw [← hworld]
    exact hfirst "World" hmem
  · rw [hworlds, ← hkey]
    exact hcount "world " (by decide) hblank
  · rw [hworlds, hworlds, happend, hdistinct]

end RegionPolicy
