import RegionPolicy.Proofs.Merging

/-!
# The order of merged bindings

Bindings are merged by putting one after the other into a list, over the binding of the same flag if
there is one. So a flag stands where it was bound first, and with the value it was bound to last. Both
can be read off the bindings as they were written, one behind the other, and that is all there is to a
merged list: what happens at one step to the flags is what happens to first occurrences.

A binding that will be put over anyway may be left out before. So to put the bindings of a merged list
is to put all that it was merged from, and merging is associative. The regions of a lineage are
settled one by one, from the root down, and each merges its own bindings into those of the region
above; but any other way of merging two lists at a time that keeps their order has the same result.

## Main definitions

* `Grouping` — a way of merging some lists two at a time.

## Main results

* `firstOccurrences_mergeFlags`, `lastFlag?_of_mem_mergeFlags` — which flags are bound in a merged
  list, in which order, and to what.
* `mergeFlags_assoc` — merging is associative.
* `Grouping.merged_eq_foldl` — lists can be merged in any grouping.
* `mergeFlags_lawful` — all of it together, with the flags of a lineage.
-/

namespace RegionPolicy

variable {key : FlagKey} {b c : FlagBinding} {bindings above own : List FlagBinding}

/-! ### Flags in the order of their first bindings -/

theorem firstOccurrences_putFlag {written : List FlagKey} (b : FlagBinding)
    (h : FirstOccurrences (bindings.map FlagBinding.key) written) :
    FirstOccurrences ((putFlag b bindings).map FlagBinding.key) (written ++ [b.key]) := by
  rw [map_key_putFlag]
  split
  · rename_i hbound
    exact h.append_known (h.mem_iff.mp hbound)
  · rename_i hnew
    exact h.append_new fun hwritten => hnew (h.mem_iff.mpr hwritten)

theorem firstOccurrences_foldl_putFlag {written : List FlagKey} (new : List FlagBinding)
    (h : FirstOccurrences (bindings.map FlagBinding.key) written) :
    FirstOccurrences ((new.foldl (fun merged b => putFlag b merged) bindings).map FlagBinding.key)
      (written ++ new.map FlagBinding.key) := by
  induction new generalizing bindings written with
  | nil =>
    rw [List.map_nil, List.append_nil]
    exact h
  | cons b rest ih =>
    rw [List.map_cons, List.append_cons]
    exact ih (firstOccurrences_putFlag b h)

/-- **Merged lists bind the flags of both lists in the order in which they were bound first.** -/
theorem firstOccurrences_mergeFlags (above own : List FlagBinding) :
    FirstOccurrences ((mergeFlags above own).map FlagBinding.key)
      ((above ++ own).map FlagBinding.key) := by
  have hempty : FirstOccurrences (([] : List FlagBinding).map FlagBinding.key) [] :=
    FirstOccurrences.nil
  exact firstOccurrences_foldl_putFlag (above ++ own) hempty

/-- **They bind them to what they were bound to last.** -/
theorem lastFlag?_of_mem_mergeFlags (h : b ∈ mergeFlags above own) :
    lastFlag? (above ++ own) b.key = some b := by
  rw [lastFlag?_append, ← find?_mergeFlags]
  exact find?_eq_some_of_nodup (nodup_mergeFlags above own) h

/-! ### Any grouping -/

/-- Of two bindings of one flag that are put one after the other only the second is left. -/
theorem putFlag_putFlag_of_key_eq (h : c.key = b.key) (bindings : List FlagBinding) :
    putFlag b (putFlag c bindings) = putFlag b bindings := by
  induction bindings with
  | nil => exact if_pos h
  | cons d rest ih =>
    rw [putFlag, h]
    by_cases hkey : d.key = b.key
    · rw [if_pos hkey, putFlag, if_pos h, putFlag, if_pos hkey]
    · rw [if_neg hkey, putFlag, if_neg hkey, ih, putFlag, if_neg hkey]

/-- A flag that has its place already can as well be bound before another one. -/
theorem putFlag_comm (hne : c.key ≠ b.key) (hbound : b.key ∈ bindings.map FlagBinding.key) :
    putFlag b (putFlag c bindings) = putFlag c (putFlag b bindings) := by
  induction bindings with
  | nil => cases hbound
  | cons d rest ih =>
    by_cases hb : d.key = b.key
    · have hc : ¬ d.key = c.key := fun hc => hne (hc.symm.trans hb)
      rw [putFlag, if_neg hc, putFlag, if_pos hb, putFlag, if_pos hb, putFlag,
        if_neg (Ne.symm hne)]
    · have hrest : b.key ∈ rest.map FlagBinding.key := by
        simpa [Ne.symm hb] using hbound
      by_cases hc : d.key = c.key
      · rw [putFlag, if_pos hc, putFlag, if_neg hne, putFlag, if_neg hb, putFlag, if_pos hc]
      · rw [putFlag, if_neg hc, putFlag, if_neg hb, ih hrest, putFlag, if_neg hb, putFlag, if_neg hc]

theorem foldl_putFlag_comm {new : List FlagBinding} (hne : ∀ c ∈ new, c.key ≠ b.key)
    (hbound : b.key ∈ bindings.map FlagBinding.key) :
    putFlag b (new.foldl (fun merged b => putFlag b merged) bindings) =
      new.foldl (fun merged b => putFlag b merged) (putFlag b bindings) := by
  induction new generalizing bindings with
  | nil => rfl
  | cons c rest ih =>
    obtain ⟨hc, hrest⟩ := List.forall_mem_cons.mp hne
    have hstill : b.key ∈ (putFlag c bindings).map FlagBinding.key := by
      rw [map_key_putFlag]
      split
      · exact hbound
      · exact List.mem_append_left _ hbound
    rw [List.foldl_cons, List.foldl_cons, ih hrest hstill, putFlag_comm hc hbound]

/-- To put the bindings of a list into which one more was put is to put that one last. -/
theorem foldl_putFlag_putFlag {new : List FlagBinding} (h : (new.map FlagBinding.key).Nodup)
    (b : FlagBinding) (bindings : List FlagBinding) :
    (putFlag b new).foldl (fun merged b => putFlag b merged) bindings =
      putFlag b (new.foldl (fun merged b => putFlag b merged) bindings) := by
  induction new generalizing bindings with
  | nil => rfl
  | cons c rest ih =>
    obtain ⟨hc, hrest⟩ := List.nodup_cons.mp h
    by_cases hkey : c.key = b.key
    · have hne : ∀ d ∈ rest, d.key ≠ b.key := fun d hd hdb =>
        hc (List.mem_map.mpr ⟨d, hd, hdb.trans hkey.symm⟩)
      have hbound : b.key ∈ (putFlag c bindings).map FlagBinding.key := by
        rw [map_key_putFlag, ← hkey]
        split
        · assumption
        · simp
      rw [putFlag, if_pos hkey, List.foldl_cons, List.foldl_cons, foldl_putFlag_comm hne hbound,
        putFlag_putFlag_of_key_eq hkey]
    · rw [putFlag, if_neg hkey, List.foldl_cons, List.foldl_cons, ih hrest]

/-- **To put the bindings of a merged list is to put all that it was merged from.** The induction is
from the end of what was merged, since that is where the last step of the merging is. -/
theorem foldl_putFlag_foldl_putFlag (new bindings : List FlagBinding) :
    (new.foldl (fun merged b => putFlag b merged) []).foldl (fun merged b => putFlag b merged)
        bindings =
      new.foldl (fun merged b => putFlag b merged) bindings := by
  induction new using List.reverseRecOn with
  | nil => rfl
  | append_singleton rest b ih =>
    rw [List.foldl_append, List.foldl_append, List.foldl_cons, List.foldl_nil, List.foldl_cons,
      List.foldl_nil, foldl_putFlag_putFlag (nodup_foldl_putFlag rest [] List.nodup_nil), ih]

/-- The bindings of the second list are put into those of the first, which are merged themselves. -/
theorem mergeFlags_eq_foldl (above own : List FlagBinding) :
    mergeFlags above own = own.foldl (fun merged b => putFlag b merged)
      (above.foldl (fun merged b => putFlag b merged) []) := by
  rw [mergeFlags, List.foldl_append]

/-- **Merging is associative.** -/
theorem mergeFlags_assoc (top middle bottom : List FlagBinding) :
    mergeFlags (mergeFlags top middle) bottom = mergeFlags top (mergeFlags middle bottom) := by
  calc mergeFlags (mergeFlags top middle) bottom
      = bottom.foldl (fun merged b => putFlag b merged) (mergeFlags top middle) := by
        rw [mergeFlags_eq_foldl, mergeFlags, foldl_putFlag_foldl_putFlag]
    _ = (middle ++ bottom).foldl (fun merged b => putFlag b merged)
          (top.foldl (fun merged b => putFlag b merged) []) := by
        rw [mergeFlags_eq_foldl, List.foldl_append]
    _ = mergeFlags top (mergeFlags middle bottom) := by
        rw [mergeFlags_eq_foldl top, mergeFlags, foldl_putFlag_foldl_putFlag]

instance : Std.Associative mergeFlags := ⟨mergeFlags_assoc⟩

/-- A way of merging some lists, two at a time. -/
inductive Grouping where
  /-- One list as it is. -/
  | single (bindings : List FlagBinding)
  /-- What comes of some lists, merged with what comes of those behind them. -/
  | merge (front back : Grouping)

namespace Grouping

/-- The lists that are merged, in their order. -/
def lists : Grouping → List (List FlagBinding)
  | single bindings => [bindings]
  | merge front back => front.lists ++ back.lists

/-- What comes of the lists. -/
def merged : Grouping → List FlagBinding
  | single bindings => bindings
  | merge front back => mergeFlags front.merged back.merged

theorem exists_lists_eq_cons (t : Grouping) : ∃ first rest, t.lists = first :: rest := by
  induction t with
  | single bindings => exact ⟨bindings, [], rfl⟩
  | merge front back ih _ =>
    obtain ⟨first, rest, hfront⟩ := ih
    exact ⟨first, rest ++ back.lists, by rw [lists, hfront, List.cons_append]⟩

/-- **Lists can be merged in any grouping:** what comes of them is what comes of merging one after
the other into the first. -/
theorem merged_eq_foldl {t : Grouping} {first : List FlagBinding} {rest : List (List FlagBinding)}
    (h : t.lists = first :: rest) : t.merged = rest.foldl mergeFlags first := by
  induction t generalizing first rest with
  | single bindings =>
    obtain ⟨rfl, rfl⟩ := List.cons.inj h
    rfl
  | merge front back ihfront ihback =>
    obtain ⟨first', rest', hfront⟩ := front.exists_lists_eq_cons
    obtain ⟨first'', rest'', hback⟩ := back.exists_lists_eq_cons
    rw [lists, hfront, hback, List.cons_append] at h
    obtain ⟨rfl, rfl⟩ := List.cons.inj h
    rw [merged, ihfront hfront, ihback hback, List.foldl_append, List.foldl_cons, List.foldl_assoc]

end Grouping

/-! ### The flags of a lineage -/

namespace RegionIndex

variable {index : RegionIndex} {id : RegionId} {r : Region}

/-- The flags of a region are those of its lineage, merged one after the other from the root down. -/
theorem Settled.flags_eq_foldl (h : index.Settled) {path : List Region}
    (hpath : index.Climb id path) (hr : index.get? id = some r) :
    ∃ first rest, (path.reverse.map fun s => s.definition.flags) = first :: rest ∧
      r.flags = rest.foldl mergeFlags first := by
  refine h.climb_induction (motive := fun r path => ∃ first rest,
    (path.reverse.map fun s => s.definition.flags) = first :: rest ∧
      r.flags = rest.foldl mergeFlags first) ?_ ?_ hpath r hr
  · intro d shape children r
    exact ⟨d.flags, [], rfl, rfl⟩
  · intro above path d shape children ih r
    obtain ⟨first, rest, hpath, habove⟩ := ih
    have hown : r.flags = mergeFlags above.flags d.flags := rfl
    refine ⟨first, rest ++ [d.flags], ?_, ?_⟩
    · rw [List.reverse_cons, List.map_append, hpath]
      rfl
    · rw [hown, habove, List.foldl_append]
      rfl

/-- So they are what comes of the bindings along the lineage in any grouping. -/
theorem Settled.merged_eq_flags (h : index.Settled) (hforest : index.Forest)
    (hr : index.get? id = some r) {t : Grouping}
    (ht : t.lists = (index.lineage id).map fun s => s.definition.flags) : t.merged = r.flags := by
  obtain ⟨path, hpath, -⟩ := hforest.climb hr
  obtain ⟨first, rest, hlists, hflags⟩ := h.flags_eq_foldl hpath hr
  rw [hpath.lineage_eq hforest.keyed, hlists] at ht
  rw [Grouping.merged_eq_foldl ht, hflags]

end RegionIndex

/-- **The laws of merging.** A merged list binds each flag that is bound in one list followed by the
other, exactly once, in the order in which the flags were bound first, and to what they were bound to
last. Merging is associative, so any number of lists can be merged in any grouping; and what comes of
the bindings along the lineage of a region, whatever the grouping, is the flags that the region is
settled with from the root down. -/
theorem mergeFlags_lawful :
    (∀ above own : List FlagBinding,
        let written := above ++ own
        let merged := mergeFlags above own
        (merged.map FlagBinding.key).Nodup ∧
          (∀ key, key ∈ merged.map FlagBinding.key ↔ key ∈ written.map FlagBinding.key) ∧
          (merged.map FlagBinding.key).Pairwise (fun key key' =>
            (written.map FlagBinding.key).idxOf key < (written.map FlagBinding.key).idxOf key') ∧
          ∀ b ∈ merged, (written.reverse.find? fun c => c.key = b.key) = some b) ∧
      (∀ top middle bottom : List FlagBinding,
        mergeFlags (mergeFlags top middle) bottom = mergeFlags top (mergeFlags middle bottom)) ∧
      (∀ t t' : Grouping, t.lists = t'.lists → t.merged = t'.merged) ∧
      ∀ (drafts : List Draft) (id : RegionId) (r : Region), (arrange drafts).get? id = some r →
        ∀ t : Grouping,
          t.lists = ((arrange drafts).lineage id).map (fun s => s.definition.flags) →
            t.merged = r.flags := by
  refine ⟨fun above own => ?_, mergeFlags_assoc, fun t t' h => ?_, fun drafts id r hr t ht => ?_⟩
  · have hkeys := firstOccurrences_mergeFlags above own
    exact ⟨hkeys.nodup, fun key => hkeys.mem_iff, hkeys.ordered,
      fun b hb => lastFlag?_of_mem_mergeFlags hb⟩
  · obtain ⟨first, rest, hlists⟩ := t'.exists_lists_eq_cons
    rw [Grouping.merged_eq_foldl (h.trans hlists), Grouping.merged_eq_foldl hlists]
  · exact (settled_arrange drafts).merged_eq_flags (forest_arrange drafts) hr ht

open Engine (orchard shed)

/-- A hive behind the shed, which turns on what the shed turns off, and building off again. -/
def hive : RegionDefinition :=
  { id := ⟨"hive"⟩, parent := some shed.id,
    flags := [.ofValue .pvp (.boolean true), .ofValue .build (.boolean false)] }

/-- Building, which the orchard turns off and on, comes first in the hive, and the hive's own binding
counts; whichever two of the three lists are merged first. -/
theorem mergeFlags_lawful_hive :
    let index := arrange ([orchard, shed, hive].map fun d => ⟨d, default⟩)
    let upper := Grouping.merge (.merge (.single orchard.flags) (.single shed.flags))
      (.single hive.flags)
    let lower := Grouping.merge (.single orchard.flags)
      (.merge (.single shed.flags) (.single hive.flags))
    FlagBinding.ofValue .build (.boolean true) ∈ mergeFlags orchard.flags shed.flags ∧
      ((orchard.flags ++ shed.flags).reverse.find? fun c => c.key = .build) =
        some (FlagBinding.ofValue .build (.boolean true)) ∧
      upper.lists = lower.lists ∧ upper.merged = lower.merged ∧
      ∃ r, index.get? hive.id = some r ∧
        upper.lists = (index.lineage hive.id).map (fun s => s.definition.flags) ∧
        upper.merged = r.flags := by
  intro index upper lower
  obtain ⟨hmerged, -, hgrouping, hlineage⟩ := mergeFlags_lawful
  have hbound : FlagBinding.ofValue .build (.boolean true) ∈
      mergeFlags orchard.flags shed.flags := by decide
  have hlists : upper.lists = lower.lists := rfl
  have hsettled : (index.get? hive.id).isSome = true := by decide +kernel
  obtain ⟨r, hr⟩ := Option.isSome_iff_exists.mp hsettled
  have hpath : upper.lists = (index.lineage hive.id).map (fun s => s.definition.flags) := by
    decide +kernel
  exact ⟨hbound, (hmerged orchard.flags shed.flags).2.2.2 _ hbound, hlists,
    hgrouping upper lower hlists, r, hr, hpath, hlineage _ hive.id r hr upper hpath⟩

end RegionPolicy
