import RegionPolicy.Proofs.Precedence
import RegionPolicy.Proofs.Reachability
import RegionPolicy.Proofs.Supply

/-!
# Histories of flags

A lineage is found by walking up from a region, and the bindings that bear on the region are found
by a second walk, which begins at its parent and knows of the region beforehand. What a walk comes
to can be said without walking: the regions listed are in force, none is listed twice, each is the
parent of the next, and the list goes on as long as a parent is in force and not listed yet. There
is one such list only. So both walks come to the same, on circles and where parents are missing too,
and the history of a flag is what the regions of the lineage bind, one after the other.

## Main definitions

* `SortedMap.IsWalk` — what a walk from a key comes to.
* `RegionIndex.IsLineage` — what walking up from a region comes to, the topmost region first.

## Main results

* `SortedMap.IsWalk.eq_follow` — there is one walk from a key only.
* `RegionIndex.isLineage_iff` — the lineage is what walking up comes to.
* `BindingGraph.pairwise_dispatch`, `BindingGraph.mem_keys_iff` — the order in which bindings are
  handed out, and the flags that are bound.
* `RegionIndex.walks_agree` — both walks come to the same, and so do the bindings found.
-/

namespace RegionPolicy

universe u v

/-! ### Walks -/

namespace SortedMap

variable {κ : Type u} {α : Type v} [Ord κ] [Std.TransOrd κ] [Std.LawfulEqOrd κ] [DecidableEq κ]

/-- What a walk from a key comes to. -/
structure IsWalk (next : α → Option κ) (key : α → κ) (m : SortedMap κ α) (start : Option κ)
    (l : List α) : Prop where
  /-- It passes values of the map. -/
  get? : ∀ a ∈ l, m.get? (key a) = some a
  /-- It passes no key twice. -/
  nodup : (l.map key).Nodup
  /-- It begins where it was told to. -/
  head? : ∀ a ∈ l.head?, start = some (key a)
  /-- Each value links to the next. -/
  isChain : l.IsChain fun a b => next a = some (key b)
  /-- It goes on as long as there is a value to go to. -/
  closed : ∀ b, m.get? (key b) = some b →
    (start = some (key b) ∨ ∃ a ∈ l, next a = some (key b)) → b ∈ l

/-- **There is one walk from a key only.** The induction is on the walk, with the entries that it
has passed put aside. -/
theorem IsWalk.eq_follow {next : α → Option κ} {key : α → κ} {m : SortedMap κ α}
    (hm : m.Keyed key) {start : Option κ} {l : List α} (h : m.IsWalk next key start l) :
    l = follow next m start := by
  induction l generalizing m start with
  | nil =>
    cases start with
    | none => rw [follow_none]
    | some k =>
      cases hk : m.get? k with
      | none => rw [follow_of_get?_eq_none hk]
      | some b =>
        obtain rfl := hm k b hk
        cases h.closed b hk (.inl rfl)
  | cons a rest ih =>
    obtain ⟨hrest, hnodup⟩ := List.nodup_cons.mp h.nodup
    obtain ⟨hfirst, hchain⟩ := List.isChain_cons.mp h.isChain
    obtain rfl := h.head? a rfl
    have hne : ∀ b ∈ rest, key b ≠ key a := fun b hb heq =>
      hrest (heq ▸ List.mem_map_of_mem hb)
    have hwalk : (m.erase (key a)).IsWalk next key (next a) rest := by
      refine ⟨fun b hb => ?_, hnodup, hfirst, hchain, fun b hb hlink => ?_⟩
      · rw [get?_erase_of_ne m (hne b hb)]
        exact h.get? b (List.mem_cons_of_mem a hb)
      · have hb' := h.closed b (get?_of_get?_erase hb) <| .inr <| by
          rcases hlink with hlink | ⟨c, hc, hlink⟩
          · exact ⟨a, List.mem_cons_self, hlink⟩
          · exact ⟨c, List.mem_cons_of_mem a hc, hlink⟩
        refine (List.mem_cons.mp hb').resolve_left ?_
        rintro rfl
        rw [get?_erase_self] at hb
        cases hb
    rw [follow_of_get?_eq_some (h.get? a List.mem_cons_self), ← ih (hm.erase (key a)) hwalk]

end SortedMap

/-! ### Orders of a binding graph -/

namespace BindingGraph

variable {g : BindingGraph} {key : FlagKey}

theorem dispatch_perm (g : BindingGraph) (key : FlagKey) :
    (g.dispatch key).Perm (g.history key) :=
  rank_perm _ _

/-- Bindings are handed out by higher priority, then by lesser id of their regions. -/
theorem pairwise_dispatch (g : BindingGraph) (key : FlagKey) :
    (g.dispatch key).Pairwise fun a b => b.priority < a.priority ∨
      a.priority = b.priority ∧ (compare a.region b.region).isLE :=
  (pairwise_rank_precedes (fun b : ResolvedBinding => (b.priority, b.region))
    (g.history key)).imp precedes_iff.mp

theorem mem_keys_iff : key ∈ g.keys ↔ g.history key ≠ [] := by
  simp [keys, FlagKey.mem_all]

theorem pairwise_keys (g : BindingGraph) : g.keys.Pairwise fun a b => a.index < b.index :=
  FlagKey.pairwise_all.filter _

end BindingGraph

namespace RegionIndex

variable {index : RegionIndex} {r : Region}

/-! ### Lineages -/

/-- What walking up from a region comes to, the topmost region first. -/
structure IsLineage (index : RegionIndex) (r : Region) (l : List Region) : Prop where
  /-- It lists regions in force. -/
  get? : ∀ s ∈ l, index.get? s.id = some s
  /-- It lists no id twice. -/
  nodup : (l.map Region.id).Nodup
  /-- It ends with the region. -/
  getLast? : l.getLast? = some r
  /-- Each region is the parent of the next. -/
  isChain : l.IsChain fun above below => below.parent = some above.id
  /-- A parent that is in force is listed. -/
  closed : ∀ s ∈ l, ∀ t, index.get? t.id = some t → s.parent = some t.id → t ∈ l

theorem IsLineage.isWalk {l : List Region} (h : index.IsLineage r l) :
    index.IsWalk Region.parent Region.id (some r.id) l.reverse where
  get? s hs := h.get? s (List.mem_reverse.mp hs)
  nodup := by rw [List.map_reverse, List.nodup_reverse]; exact h.nodup
  head? s hs := by
    rw [List.head?_reverse, h.getLast?] at hs
    rw [Option.mem_some_iff.mp hs]
  isChain := List.isChain_reverse.mpr h.isChain
  closed t ht := by
    rintro (hstart | ⟨s, hs, hparent⟩)
    · have hr : r ∈ l := List.mem_of_getLast? h.getLast?
      have hget := h.get? r hr
      rw [Option.some.inj hstart, ht] at hget
      exact Option.some.inj hget ▸ List.mem_reverse.mpr hr
    · exact List.mem_reverse.mpr (h.closed s (List.mem_reverse.mp hs) t ht hparent)

/-- **The lineage is what walking up comes to,** and there is nothing else that does. -/
theorem isLineage_iff (hindex : index.Keyed Region.id) (hr : index.get? r.id = some r)
    {l : List Region} : index.IsLineage r l ↔ l = index.lineage r.id := by
  constructor
  · intro h
    rw [lineage, ← h.isWalk.eq_follow hindex, List.reverse_reverse]
  · rintro rfl
    refine ⟨fun s hs => get?_of_mem_lineage hindex hs, nodup_lineage hindex r.id, ?_,
      isChain_lineage hindex r.id, fun s hs t ht hparent => ?_⟩
    · rw [lineage_eq_append hr, List.getLast?_concat]
    · rw [lineage, List.mem_reverse] at *
      exact SortedMap.mem_follow_of_next hs hparent ht

/-- **The two walks agree.** The lineage of a region is what walking up from it comes to, and the
regions of which bindings are collected are the same, in the same order. The history of a flag is
what they bind, one region after the other, in the order of their definitions; the bindings are
handed out by higher priority, then by lesser id, and those of one region in the order of its
definition; and the flags that are bound are those that have a history, in the order of
declaration. -/
theorem walks_agree (hindex : index.Keyed Region.id) (hr : index.get? r.id = some r) :
    (∀ l, l = index.lineage r.id ↔ index.IsLineage r l) ∧
      (index.ancestors r).reverse ++ [r] = index.lineage r.id ∧
      (∀ key,
        (index.bindings r).history key =
          (index.lineage r.id).flatMap (fun s => s.bindingsOf key) ∧
        ((index.bindings r).dispatch key).Perm ((index.bindings r).history key) ∧
        ((index.bindings r).dispatch key).Pairwise (fun a b => b.priority < a.priority ∨
          a.priority = b.priority ∧ (compare a.region b.region).isLE) ∧
        ∀ s ∈ index.lineage r.id,
          ((index.bindings r).dispatch key).filter (fun b => b.region = s.id) =
            s.bindingsOf key) ∧
      (∀ key, key ∈ (index.bindings r).keys ↔ (index.bindings r).history key ≠ []) ∧
      (index.bindings r).keys.Pairwise fun a b => a.index < b.index :=
  ⟨fun _ => (isLineage_iff hindex hr).symm, (lineage_eq_append hr).symm,
    fun key => ⟨history_bindings hr key, BindingGraph.dispatch_perm _ key,
      BindingGraph.pairwise_dispatch _ key,
      fun _ hs => filter_dispatch_bindings hindex hr key hs⟩,
    fun _ => BindingGraph.mem_keys_iff, BindingGraph.pairwise_keys _⟩

/-! ### A mill and a weir

Each names the other as its parent. -/

/-- A weir below the mill, with a flag that is inherited and one that is not. -/
def weir : Region :=
  .ofDefinition { id := ⟨"weir"⟩, priority := 7, parent := some ⟨"mill"⟩,
                  flags := [.ofValue .build (.boolean false), .ofValue .tnt (.boolean false),
                    .ofValue .worldedit (.boolean true)] } .empty

/-- A mill below the weir, on which building is turned off and on again. -/
def mill : Region :=
  .ofDefinition { id := ⟨"mill"⟩, parent := some ⟨"weir"⟩,
                  flags := [.ofValue .build (.boolean false), .ofValue .pvp (.boolean false),
                    .ofValue .build (.boolean true)] } .empty

/-- The index of the weir and the mill. -/
def weirIndex : RegionIndex := SortedMap.insert (SortedMap.insert ∅ weir.id weir) mill.id mill

theorem keyed_weirIndex : weirIndex.Keyed Region.id :=
  ((SortedMap.keyed_empty _).insert rfl).insert rfl

theorem get?_mill : weirIndex.get? mill.id = some mill := SortedMap.get?_insert_self ..

theorem get?_weir : weirIndex.get? weir.id = some weir := by rfl

/-- Walking up from the mill ends at the weir, whose parent has been listed. -/
theorem isLineage_mill : weirIndex.IsLineage mill [weir, mill] where
  get? := by
    simp only [List.mem_cons, List.not_mem_nil, or_false, forall_eq_or_imp, forall_eq]
    exact ⟨get?_weir, get?_mill⟩
  nodup := by decide
  getLast? := rfl
  isChain := List.isChain_pair.mpr rfl
  closed := by
    intro s hs t ht hparent
    rcases List.mem_cons.mp hs with rfl | hs
    · have hid : t.id = mill.id := (Option.some.inj hparent).symm
      rw [hid, get?_mill] at ht
      exact Option.some.inj ht ▸ List.mem_cons_of_mem weir List.mem_cons_self
    · obtain rfl := List.mem_singleton.mp hs
      have hid : t.id = weir.id := (Option.some.inj hparent).symm
      rw [hid, get?_weir] at ht
      exact Option.some.inj ht ▸ List.mem_cons_self

/-- The walk from the mill ends in the circle, and what it collects is what the weir and the mill
bind. -/
theorem walks_agree_mill :
    weirIndex.Keyed Region.id ∧ weirIndex.get? mill.id = some mill ∧
      weirIndex.lineage mill.id = [weir, mill] ∧
      (weirIndex.ancestors mill).reverse ++ [mill] = [weir, mill] ∧
      ((weirIndex.bindings mill).history .build).map (fun b => (b.region, b.binding.value)) =
        [(weir.id, .boolean false), (mill.id, .boolean false), (mill.id, .boolean true)] := by
  obtain ⟨hlineage, hwalk, hgraph, -, -⟩ := walks_agree keyed_weirIndex get?_mill
  have hmill := (hlineage _).mpr isLineage_mill
  refine ⟨keyed_weirIndex, get?_mill, hmill.symm, hwalk.trans hmill.symm, ?_⟩
  rw [(hgraph .build).1, ← hmill]
  rfl

end RegionIndex

end RegionPolicy
