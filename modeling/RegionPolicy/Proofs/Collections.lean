import RegionPolicy.Collection.Ranking
import RegionPolicy.Collection.SortedMap
import Mathlib.Data.List.Nodup

/-!
# Laws of collections

What the theory of regions needs of maps and rankings, beyond the laws that stand beside their
definitions.

## Main results

* `SortedMap.get?_ofList` — of several entries with one key the last counts.
* `FirstOccurrences.append_known`, `FirstOccurrences.append_new` — the first occurrences of a list
  with one more member.
* `filter_rank` — **ranking is stable**: elements that the order does not tell apart come out as
  they went in.
-/

namespace RegionPolicy

universe u v w

/-! ### Maps -/

namespace SortedMap

variable {κ : Type u} {α : Type v} {β : Type w} [Ord κ]

theorem contains_iff {m : SortedMap κ α} {k : κ} :
    m.contains k = true ↔ ∃ a, m.get? k = some a :=
  Option.isSome_iff_exists

theorem length_keys (m : SortedMap κ α) : m.keys.length = m.size :=
  List.length_map _

variable [Std.TransOrd κ] [Std.LawfulEqOrd κ]

theorem mem_values_iff {m : SortedMap κ α} {a : α} :
    a ∈ m.values ↔ ∃ k, m.get? k = some a := by
  rw [values, List.mem_map]
  constructor
  · rintro ⟨⟨k, b⟩, he, rfl⟩
    exact ⟨k, mem_entries_iff.mp he⟩
  · rintro ⟨k, hk⟩
    exact ⟨(k, a), mem_entries_iff.mpr hk, rfl⟩

theorem nodup_keys (m : SortedMap κ α) : m.keys.Nodup := by
  refine m.pairwise_keys.imp fun {a b} hlt heq => ?_
  subst heq
  simp at hlt

section Decidable

variable [DecidableEq κ]

/-- What is left after erasing was there before. -/
theorem get?_of_get?_erase {m : SortedMap κ α} {j k : κ} {a : α}
    (h : (m.erase k).get? j = some a) : m.get? j = some a := by
  rw [get?_erase] at h
  split at h
  · cases h
  · exact h

theorem erase_comm (m : SortedMap κ α) (j k : κ) :
    (m.erase j).erase k = (m.erase k).erase j := by
  refine ext_get? fun i => ?_
  simp only [get?_erase]
  split <;> split <;> rfl

theorem erase_insert_of_ne (m : SortedMap κ α) {j k : κ} (a : α) (h : j ≠ k) :
    (m.insert k a).erase j = (m.erase j).insert k a := by
  refine ext_get? fun i => ?_
  simp only [get?_erase, get?_insert]
  by_cases hij : i = j
  · rw [if_pos hij, if_neg (hij ▸ h), if_pos hij]
  · rw [if_neg hij, if_neg hij]

theorem erase_mapValues (m : SortedMap κ α) (f : κ → α → β) (k : κ) :
    (m.mapValues f).erase k = (m.erase k).mapValues f := by
  refine ext_get? fun i => ?_
  simp only [get?_erase, get?_mapValues]
  split <;> rfl

theorem get?_foldl_erase (l : List κ) (m : SortedMap κ α) (k : κ) :
    (l.foldl erase m).get? k = if k ∈ l then none else m.get? k := by
  induction l generalizing m with
  | nil => simp
  | cons j rest ih =>
    rw [List.foldl_cons, ih, get?_erase]
    by_cases hkj : k = j <;> simp [hkj]

theorem get?_foldl_insert (l : List (κ × α)) (m : SortedMap κ α) (k : κ) :
    (l.foldl (fun m e => m.insert e.1 e.2) m).get? k =
      (((l.filter fun e => e.1 = k).getLast?).map Prod.snd).or (m.get? k) := by
  induction l generalizing m with
  | nil => simp
  | cons e rest ih =>
    rw [List.foldl_cons, ih, get?_insert]
    by_cases hek : e.1 = k
    · rw [if_pos hek.symm, List.filter_cons_of_pos (by simpa using hek)]
      cases hrest : (rest.filter fun e => e.1 = k).getLast? with
      | none => simp [List.getLast?_cons, hrest]
      | some last => simp [List.getLast?_cons, hrest]
    · rw [if_neg (Ne.symm hek), List.filter_cons_of_neg (by simpa using hek)]

theorem insert_comm_of_ne (m : SortedMap κ α) {j k : κ} (a b : α) (h : j ≠ k) :
    (m.insert j a).insert k b = (m.insert k b).insert j a := by
  refine ext_get? fun i => ?_
  simp only [get?_insert]
  by_cases hij : i = j
  · rw [if_pos hij, if_neg (hij ▸ h), if_pos hij]
  · rw [if_neg hij, if_neg hij]

/-- Of entries whose keys differ the order does not matter. -/
theorem ofList_perm {l l' : List (κ × α)} (h : l.Perm l') (hl : (l.map Prod.fst).Nodup) :
    ofList l = ofList l' := by
  refine h.foldl_eq' (fun e he f hf m => ?_) ∅
  by_cases hef : e.1 = f.1
  · rw [List.inj_on_of_nodup_map hl he hf hef]
  · exact insert_comm_of_ne m e.2 f.2 hef

/-- **Of several entries with one key the last counts.** -/
theorem get?_ofList (l : List (κ × α)) (k : κ) :
    (ofList l).get? k = ((l.filter fun e => e.1 = k).getLast?).map Prod.snd := by
  rw [ofList, get?_foldl_insert, get?_empty, Option.or_none]

theorem mem_of_mem_entries_ofList {l : List (κ × α)} {e : κ × α}
    (h : e ∈ (ofList l).entries) : e ∈ l := by
  have hget : (ofList l).get? e.1 = some e.2 := mem_entries_iff.mp h
  rw [get?_ofList] at hget
  obtain ⟨last, hlast, hvalue⟩ := Option.map_eq_some_iff.mp hget
  obtain ⟨hmem, hkey⟩ := List.mem_filter.mp (List.mem_of_getLast? hlast)
  rwa [Prod.ext (of_decide_eq_true hkey) hvalue] at hmem

end Decidable

end SortedMap

/-! ### Lists -/

/-- Of a list whose keys differ, a key picks out one element. -/
theorem flatMap_ite_of_nodup {α : Type u} {β : Type v} {κ : Type w} [DecidableEq κ] {key : α → κ}
    {l : List α} (hl : (l.map key).Nodup) {a : α} (ha : a ∈ l) (bs : List β) :
    (l.flatMap fun b => if key b = key a then bs else []) = bs := by
  induction l with
  | nil => simp at ha
  | cons b rest ih =>
    rw [List.map_cons, List.nodup_cons] at hl
    rw [List.flatMap_cons]
    rcases List.mem_cons.mp ha with rfl | ha
    · have hrest : (rest.flatMap fun b => if key b = key a then bs else []) = [] := by
        rw [List.flatMap_eq_nil_iff]
        intro b hb
        rw [if_neg]
        exact fun hba => hl.1 (hba ▸ List.mem_map_of_mem hb)
      rw [if_pos rfl, hrest, List.append_nil]
    · have hba : key b ≠ key a := fun hba => hl.1 (hba ▸ List.mem_map_of_mem ha)
      rw [if_neg hba, List.nil_append]
      exact ih hl.2 ha

/-- Of a list whose keys differ, each member is the first one found by its key. -/
theorem find?_eq_some_of_nodup {α : Type u} {κ : Type w} [DecidableEq κ] {key : α → κ} {l : List α}
    (hl : (l.map key).Nodup) {a : α} (ha : a ∈ l) : (l.find? fun b => key b = key a) = some a := by
  cases hfind : l.find? fun b => key b = key a with
  | none => simpa using List.find?_eq_none.mp hfind a ha
  | some b =>
    have hkey : key b = key a := by simpa using List.find?_some hfind
    rw [List.inj_on_of_nodup_map hl (List.mem_of_find?_eq_some hfind) ha hkey]

/-- The members of a list, each once, in the order of their first occurrences. -/
structure FirstOccurrences {α : Type u} [DecidableEq α] (kept written : List α) : Prop where
  mem_iff : ∀ {a}, a ∈ kept ↔ a ∈ written
  ordered : kept.Pairwise fun a b => written.idxOf a < written.idxOf b

namespace FirstOccurrences

variable {α : Type u} [DecidableEq α] {kept written : List α} {a : α}

theorem nil : FirstOccurrences ([] : List α) [] :=
  ⟨Iff.rfl, .nil⟩

theorem nodup (h : FirstOccurrences kept written) : kept.Nodup :=
  h.ordered.imp fun hlt heq => absurd (heq ▸ hlt) (Nat.lt_irrefl _)

/-- What comes later does not change the order of what was there. -/
theorem pairwise_append (h : FirstOccurrences kept written) (a : α) :
    kept.Pairwise fun b c => (written ++ [a]).idxOf b < (written ++ [a]).idxOf c := by
  refine h.ordered.imp_of_mem fun hb hc hlt => ?_
  rwa [List.idxOf_append_of_mem (h.mem_iff.mp hb), List.idxOf_append_of_mem (h.mem_iff.mp hc)]

theorem append_known (h : FirstOccurrences kept written) (ha : a ∈ written) :
    FirstOccurrences kept (written ++ [a]) := by
  refine ⟨fun {b} => ?_, h.pairwise_append a⟩
  rw [h.mem_iff, List.mem_append, List.mem_singleton]
  exact ⟨.inl, fun hb => hb.elim id fun heq => heq ▸ ha⟩

theorem append_new (h : FirstOccurrences kept written) (ha : a ∉ written) :
    FirstOccurrences (kept ++ [a]) (written ++ [a]) := by
  refine ⟨by simp only [List.mem_append, h.mem_iff, implies_true], ?_⟩
  refine List.pairwise_append.mpr ⟨h.pairwise_append a, List.pairwise_singleton .., ?_⟩
  intro b hb c hc
  obtain rfl := List.mem_singleton.mp hc
  have hwritten := h.mem_iff.mp hb
  rw [List.idxOf_append_of_mem hwritten, List.idxOf_append_of_notMem ha]
  exact Nat.lt_add_right _ (List.idxOf_lt_length_iff.mpr hwritten)

end FirstOccurrences

/-! ### Rankings -/

section Stable

variable {α : Type u} {le : α → α → Bool} {p : α → Bool}

theorem filter_rankInsert {a : α} {l : List α} (h : ∀ b ∈ l, p a → p b → le a b) :
    (rankInsert le a l).filter p = (a :: l).filter p := by
  induction l with
  | nil => rfl
  | cons b rest ih =>
    rw [rankInsert]
    split
    · rfl
    · rename_i hab
      have hrest := ih fun c hc => h c (List.mem_cons_of_mem b hc)
      rw [List.filter_cons, hrest]
      -- `b` is passed because `a` may not precede it, so the two are not both kept
      by_cases hb : p b = true
      · have ha : ¬ p a = true := fun ha => hab (h b List.mem_cons_self ha hb)
        simp [ha, hb]
      · simp [List.filter_cons, hb]

/-- **Ranking is stable.** Elements that may all precede each other come out as they went in. -/
theorem filter_rank {l : List α} (h : ∀ a ∈ l, ∀ b ∈ l, p a → p b → le a b) :
    (rank le l).filter p = l.filter p := by
  induction l with
  | nil => rfl
  | cons a rest ih =>
    have hrest := ih fun b hb c hc =>
      h b (List.mem_cons_of_mem a hb) c (List.mem_cons_of_mem a hc)
    rw [rank, filter_rankInsert fun b hb =>
      h a List.mem_cons_self b (List.mem_cons_of_mem a (mem_rank.mp hb)), List.filter_cons,
      List.filter_cons, hrest]

end Stable

end RegionPolicy
