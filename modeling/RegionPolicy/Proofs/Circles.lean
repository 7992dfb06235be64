import Mathlib.Data.List.Cycle
import RegionPolicy.Proofs.Loading
import RegionPolicy.Proofs.Reachability

/-!
# Cutting circles

Definitions may name their parents in circles, and an arrangement is a forest, so somewhere it has
to leave such a circle open. It does so at one link of each circle and at no other link, wherever
the arranging began and however many regions lead into the circle without being part of it.

Two facts are kept while chains are settled. Whoever is settled has all above settled. And a region
that became a root although its parent is there lies on a circle, of which it is the only such
region. A chain adds at most one region of that kind, its topmost; the parent of that one was passed
on the way up, so all that can be reached from it is in the chain.

## Main definitions

* `NamesParent` — a draft names the parent of its id.
* `Cut` — a region became a root although its parent is there.
* `Defused` — the two facts.
* `Declares` — of some definitions, the last one with an id names a parent.

## Main results

* `Defused.settleChain` — settling a chain keeps the two facts.
* `Defused.exists_cut` — on every circle there is a region that was cut.
* `Engine.parents_reload` — what a load makes of the parents that are declared.
-/

namespace RegionPolicy

open Relation

/-- The parent of a region, if it is in force and has one. -/
def RegionIndex.parentOf (index : RegionIndex) (id : RegionId) : Option RegionId :=
  (index.get? id).bind Region.parent

/-- Knowing the children changes no parent. -/
theorem parentOf_linkChildren (index : RegionIndex) (id : RegionId) :
    (linkChildren index).parentOf id = index.parentOf id := by
  rw [RegionIndex.parentOf, get?_linkChildren, Option.bind_map]
  rfl

/-! ### Circles -/

/-- A circle can be read from any of its members on. -/
theorem exists_eq_cons_of_mem {α : Type} {c : Cycle α} {a : α} (ha : a ∈ c) :
    ∃ l : List α, c = (a :: l : List α) := by
  induction c using Quotient.inductionOn' with
  | h l =>
    obtain ⟨before, after, rfl⟩ := List.append_of_mem ha
    exact ⟨after ++ before, Cycle.coe_eq_coe.mpr ⟨before.length, List.rotate_append_length_eq ..⟩⟩

theorem exists_mem_of_ne_nil {α : Type} {c : Cycle α} (h : c ≠ .nil) : ∃ a, a ∈ c := by
  induction c using Cycle.induction_on with
  | nil => exact absurd rfl h
  | cons a l => exact ⟨a, by simp⟩

/-- On a circle every member leads to a member. -/
theorem exists_mem_of_chain {α : Type} {r : α → α → Prop} {c : Cycle α} (h : c.Chain r) {a : α}
    (ha : a ∈ c) : ∃ b ∈ c, r a b := by
  obtain ⟨l, rfl⟩ := exists_eq_cons_of_mem ha
  rw [Cycle.chain_coe_cons] at h
  match l with
  | [] => exact ⟨a, ha, (List.isChain_cons_cons.mp h).1⟩
  | b :: rest => exact ⟨b, by simp, (List.isChain_cons_cons.mp h).1⟩

/-- On a circle every member leads to every other in some steps, and to itself. -/
theorem transGen_of_chain {α : Type} {r : α → α → Prop} {c : Cycle α} (h : c.Chain r) {a b : α}
    (ha : a ∈ c) (hb : b ∈ c) : TransGen r a b :=
  Cycle.chain_iff_pairwise.mp (h.imp fun _ _ => TransGen.single) a ha b hb

/-- Who leads to itself is on a circle. -/
theorem exists_chain_of_transGen {α : Type} {r : α → α → Prop} {a : α} (h : TransGen r a a) :
    ∃ c : Cycle α, c.Chain r ∧ a ∈ c := by
  obtain ⟨b, hlink, hback⟩ := TransGen.tail'_iff.mp h
  obtain ⟨l, hchain, hlast⟩ := List.exists_isChain_cons_of_relationReflTransGen hlink
  refine ⟨(a :: l : List α), ?_, by simp⟩
  rw [Cycle.chain_coe_cons, ← List.cons_append, List.isChain_append]
  refine ⟨hchain, List.isChain_singleton a, ?_⟩
  intro x hx y hy
  rw [List.getLast?_eq_some_getLast (List.cons_ne_nil a l), hlast] at hx
  obtain rfl := Option.some.inj hx
  obtain rfl := Option.some.inj hy
  exact hback

/-! ### What drafts name -/

/-- The draft of an id names a parent. -/
def NamesParent (drafts : SortedMap RegionId Draft) : RegionId → RegionId → Prop :=
  SortedMap.Leads (fun d parent => d.definition.parent = some parent) drafts

variable {drafts : SortedMap RegionId Draft} {index : RegionIndex}

theorem namesParent_iff {id parent : RegionId} {d : Draft} (hd : drafts.get? id = some d) :
    NamesParent drafts id parent ↔ d.definition.parent = some parent := by
  constructor
  · rintro ⟨d', hd', hparent⟩
    rw [Option.some.inj (hd.symm.trans hd'), hparent]
  · exact fun hparent => ⟨d, hd, hparent⟩

/-- A draft names one parent at most. -/
theorem NamesParent.unique {id parent other : RegionId} (h : NamesParent drafts id parent)
    (hother : NamesParent drafts id other) : parent = other := by
  obtain ⟨d, hd, hparent⟩ := h
  exact Option.some.inj (hparent.symm.trans ((namesParent_iff hd).mp hother))

theorem NamesParent.contains {id parent : RegionId} (h : NamesParent drafts id parent) :
    drafts.contains id = true := by
  obtain ⟨d, hd, -⟩ := h
  exact SortedMap.contains_of_get? hd

/-! ### Settling a chain -/

/-- A region that has grown is a root, or has the parent that its definition names. -/
theorem Grown.parent_eq (h : Grown drafts index) {id : RegionId} {r : Region}
    (hr : index.get? id = some r) : r.parent = none ∨ r.parent = r.definition.parent := by
  have hunder := congrArg Region.parent (h.eq_under hr)
  rw [Region.parent_under] at hunder
  cases habove : r.parent.bind index.get? with
  | none => exact .inl (by rw [hunder, habove]; rfl)
  | some above => exact .inr (by rw [hunder, habove]; rfl)

/-- A parent in force is one that the draft names. -/
theorem Grown.names_parent (h : Grown drafts index) {id parent : RegionId} {r : Region}
    (hr : index.get? id = some r) (hparent : r.parent = some parent) :
    NamesParent drafts id parent := by
  obtain ⟨d, hd, hdefinition, -⟩ := h.exists_draft hr
  rw [namesParent_iff hd, ← hdefinition]
  rcases h.parent_eq hr with hroot | hkept
  · rw [hroot] at hparent
    cases hparent
  · rw [← hkept, hparent]

/-- In a chain that is settled from its end everyone gets the parent that the draft names. Only the
last draft may miss it, when its parent was not settled before. -/
theorem parent_foldr_settle {l : List Draft} (hnodup : (l.map Draft.id).Nodup)
    (hchain : l.IsChain fun d e => d.definition.parent = some e.id) {d : Draft} (hd : d ∈ l) :
    ∃ r, (l.foldr settle index).get? d.id = some r ∧
      (r.parent = d.definition.parent ∨
        l.getLast? = some d ∧ ∀ parent, d.definition.parent = some parent →
          index.get? parent = none) := by
  induction l with
  | nil => cases hd
  | cons e rest ih =>
    rw [List.map_cons, List.nodup_cons] at hnodup
    rw [List.isChain_cons] at hchain
    rw [List.foldr_cons, get?_settle]
    rcases List.mem_cons.mp hd with rfl | hd
    · rw [if_pos rfl]
      refine ⟨_, rfl, ?_⟩
      rw [Region.parent_under]
      cases rest with
      | nil =>
        cases hparent : d.definition.parent.bind index.get? with
        | none =>
          exact .inr ⟨rfl, fun parent hd => by simpa [hd] using hparent⟩
        | some above =>
          left
          simp [hparent]
      | cons e rest =>
        -- the next was settled a moment ago
        have hnext := hchain.1 e rfl
        have hmem : e.id ∈ (e :: rest).map Draft.id := List.mem_map_of_mem List.mem_cons_self
        have hsettled : ∃ s, ((e :: rest).foldr settle index).get? e.id = some s :=
          Grown.exists_get?_foldr_settle (.inl hmem)
        obtain ⟨s, hs⟩ := hsettled
        rw [hnext, Option.bind_some, hs]
        exact .inl rfl
    · have hne : d.id ≠ e.id := by
        intro heq
        exact hnodup.1 (heq ▸ List.mem_map_of_mem hd)
      obtain ⟨r, hr, hparent⟩ := ih hnodup.2 hchain.2 hd
      rw [if_neg hne]
      refine ⟨r, hr, hparent.imp_right fun ⟨hlast, hnew⟩ => ⟨?_, hnew⟩⟩
      rw [List.getLast?_cons, hlast]
      rfl

section UnsettledChain

variable {id : RegionId}

theorem contains_of_mem_unsettledChain (hdrafts : drafts.Keyed Draft.id) {d : Draft}
    (hd : d ∈ unsettledChain drafts index id) : index.contains d.id = false := by
  rw [SortedMap.contains, get?_of_mem_unsettledChain hdrafts hd]
  rfl

theorem names_iff_of_mem_unsettledChain (hdrafts : drafts.Keyed Draft.id) {d : Draft}
    (hd : d ∈ unsettledChain drafts index id) {parent : RegionId} :
    NamesParent drafts d.id parent ↔ d.definition.parent = some parent :=
  namesParent_iff (get?_drafts_of_mem_unsettledChain hdrafts hd)

/-- Each draft of an unsettled chain names the next. -/
theorem isChain_unsettledChain (hdrafts : drafts.Keyed Draft.id) :
    (unsettledChain drafts index id).IsChain fun d e => d.definition.parent = some e.id := by
  rw [unsettledChain]
  refine (SortedMap.isChain_follow hdrafts _).imp ?_
  intro d e hnext
  exact (Option.filter_eq_some_iff.mp hnext).1

/-- Each id of an unsettled chain leads to the last one. -/
theorem reflTransGen_getLast_unsettledChain (hdrafts : drafts.Keyed Draft.id) {d last : Draft}
    (hlast : (unsettledChain drafts index id).getLast? = some last)
    (hd : d ∈ unsettledChain drafts index id) :
    ReflTransGen (NamesParent drafts) d.id last.id := by
  have hchain : (unsettledChain drafts index id).IsChain fun d e =>
      NamesParent drafts d.id e.id := by
    refine (List.IsChain.iff_mem.mp (isChain_unsettledChain hdrafts)).imp ?_
    rintro d e ⟨hd, -, hparent⟩
    exact (names_iff_of_mem_unsettledChain hdrafts hd).mpr hparent
  refine hchain.backwards_induction (fun d => ReflTransGen (NamesParent drafts) d.id last.id) _
    (fun d e hnames hreach => .head hnames hreach) (fun hne => ?_) d hd
  rw [List.getLast?_eq_some_getLast hne] at hlast
  rw [Option.some.inj hlast]

/-- Every draft of an unsettled chain but the last names one of the chain. -/
theorem mem_map_of_ne_getLast (hdrafts : drafts.Keyed Draft.id) {d : Draft}
    (hd : d ∈ unsettledChain drafts index id)
    (hne : (unsettledChain drafts index id).getLast? ≠ some d) :
    ∃ e ∈ unsettledChain drafts index id, d.definition.parent = some e.id := by
  obtain ⟨before, after, heq⟩ := List.append_of_mem hd
  have hchain : (unsettledChain drafts index id).IsChain fun d e =>
      d.definition.parent = some e.id :=
    isChain_unsettledChain hdrafts
  rw [heq] at hne hchain
  match after with
  | [] => exact absurd (by simp) hne
  | e :: rest =>
    refine ⟨e, by simp [heq], ?_⟩
    exact (List.isChain_cons_cons.mp (List.isChain_append.mp hchain).2.1).1

/-- An unsettled chain goes on to whatever its drafts name, unless that is missing or settled. -/
theorem mem_map_unsettledChain_of_names (hdrafts : drafts.Keyed Draft.id) {d : Draft}
    (hd : d ∈ unsettledChain drafts index id) {parent : RegionId}
    (hparent : d.definition.parent = some parent) (hnew : index.get? parent = none)
    (hcontains : drafts.contains parent = true) :
    parent ∈ (unsettledChain drafts index id).map Draft.id := by
  obtain ⟨e, he⟩ := SortedMap.contains_iff.mp hcontains
  have hnext : (d.definition.parent.filter fun id => !index.contains id) = some parent := by
    simp [hparent, SortedMap.contains, hnew]
  exact List.mem_map.mpr ⟨e, SortedMap.mem_follow_of_next hd hnext he, hdrafts parent e he⟩

end UnsettledChain

/-! ### Regions that were cut -/

/-- A region has become a root although there is a draft of the parent that its own draft names. -/
structure Cut (drafts : SortedMap RegionId Draft) (index : RegionIndex) (id : RegionId) : Prop where
  /-- The region is settled. -/
  settled : index.contains id = true
  /-- It is a root. -/
  root : index.parentOf id = none
  /-- Its draft names a parent that has a draft. -/
  names : ∃ parent, NamesParent drafts id parent ∧ drafts.contains parent = true

/-- What is kept while chains are settled. -/
structure Defused (drafts : SortedMap RegionId Draft) (index : RegionIndex) : Prop where
  /-- Whoever is settled has the region above settled, if there is one. -/
  above : ∀ {id parent}, index.contains id = true → NamesParent drafts id parent →
    drafts.contains parent = true → index.contains parent = true
  /-- A region that was cut lies on a circle, and nobody else above it was cut. -/
  cut : ∀ {id}, Cut drafts index id → TransGen (NamesParent drafts) id id ∧
    ∀ {other}, TransGen (NamesParent drafts) id other → Cut drafts index other → other = id

namespace Defused

theorem empty (drafts : SortedMap RegionId Draft) : Defused drafts ∅ where
  above h := by simp [SortedMap.contains] at h
  cut h := by simpa [SortedMap.contains] using h.settled

/-- Whoever is settled has all above settled. -/
theorem contains_of_transGen (h : Defused drafts index) {id other : RegionId}
    (hsettled : index.contains id = true) (hreach : TransGen (NamesParent drafts) id other)
    (hother : drafts.contains other = true) : index.contains other = true := by
  induction hreach with
  | single hnames => exact h.above hsettled hnames hother
  | tail _ hnames ih => exact h.above (ih hnames.contains) hnames hother

end Defused

section Step

variable {id : RegionId}

theorem contains_settleChain_iff {target : RegionId} :
    (settleChain drafts index id).contains target = true ↔
      target ∈ (unsettledChain drafts index id).map Draft.id ∨ index.contains target = true := by
  simp only [SortedMap.contains_iff]
  refine ⟨fun ⟨r, hr⟩ => ?_, Grown.exists_get?_foldr_settle⟩
  by_cases hmem : target ∈ (unsettledChain drafts index id).map Draft.id
  · exact .inl hmem
  · rw [settleChain, Grown.get?_foldr_settle_of_not_mem hmem] at hr
    exact .inr ⟨r, hr⟩

/-- A region that is cut was cut before, or is the last of the chain, and its parent was not settled
before. -/
theorem Cut.of_settleChain (hdrafts : drafts.Keyed Draft.id) {target : RegionId}
    (h : Cut drafts (settleChain drafts index id) target) :
    Cut drafts index target ∨
      ∃ d, d.id = target ∧ (unsettledChain drafts index id).getLast? = some d ∧
        ∃ parent, d.definition.parent = some parent ∧ index.get? parent = none ∧
          drafts.contains parent = true := by
  obtain ⟨hsettled, hroot, parent, hnames, hparent⟩ := h
  by_cases hmem : target ∈ (unsettledChain drafts index id).map Draft.id
  · obtain ⟨d, hd, rfl⟩ := List.mem_map.mp hmem
    obtain ⟨r, hr, hcase⟩ := parent_foldr_settle (nodup_unsettledChain hdrafts id)
      (isChain_unsettledChain hdrafts) hd
    have hdeclared := (names_iff_of_mem_unsettledChain hdrafts hd).mp hnames
    have hnone : r.parent = none := by
      rw [RegionIndex.parentOf, settleChain, hr] at hroot
      exact hroot
    rcases hcase with hkept | ⟨hlast, hnew⟩
    · rw [hnone, hdeclared] at hkept
      cases hkept
    · exact .inr ⟨d, rfl, hlast, parent, hdeclared, hnew parent hdeclared, hparent⟩
  · rw [settleChain] at hsettled hroot
    refine .inl ⟨?_, ?_, parent, hnames, hparent⟩
    · rwa [SortedMap.contains, Grown.get?_foldr_settle_of_not_mem hmem] at hsettled
    · rwa [RegionIndex.parentOf, Grown.get?_foldr_settle_of_not_mem hmem] at hroot

/-- Where the last of a chain is cut, nothing leads out of the chain: the parent of the last was
passed on the way up. -/
theorem mem_map_of_transGen (hdrafts : drafts.Keyed Draft.id) {last : Draft} {above : RegionId}
    (hlast : (unsettledChain drafts index id).getLast? = some last)
    (habove : last.definition.parent = some above) (hnew : index.get? above = none)
    (hcontains : drafts.contains above = true) {start other : RegionId}
    (hstart : start ∈ (unsettledChain drafts index id).map Draft.id)
    (h : TransGen (NamesParent drafts) start other) :
    other ∈ (unsettledChain drafts index id).map Draft.id := by
  have hstep : ∀ {j k}, j ∈ (unsettledChain drafts index id).map Draft.id → NamesParent drafts j k →
      k ∈ (unsettledChain drafts index id).map Draft.id := by
    intro j k hj hnames
    obtain ⟨d, hd, rfl⟩ := List.mem_map.mp hj
    have hk := (names_iff_of_mem_unsettledChain hdrafts hd).mp hnames
    by_cases hdlast : (unsettledChain drafts index id).getLast? = some d
    · obtain rfl := Option.some.inj (hlast.symm.trans hdlast)
      obtain rfl := Option.some.inj (habove.symm.trans hk)
      exact mem_map_unsettledChain_of_names hdrafts hd hk hnew hcontains
    · obtain ⟨e, he, hnext⟩ := mem_map_of_ne_getLast hdrafts hd hdlast
      obtain rfl := Option.some.inj (hnext.symm.trans hk)
      exact List.mem_map_of_mem he
  induction h with
  | single hnames => exact hstep hstart hnames
  | tail _ hnames ih => exact hstep ih hnames

/-- **Settling a chain keeps the two facts.** -/
theorem Defused.settleChain (h : Defused drafts index) (hdrafts : drafts.Keyed Draft.id)
    (id : RegionId) : Defused drafts (settleChain drafts index id) where
  above := by
    intro j parent hj hnames hparent
    rw [contains_settleChain_iff] at hj ⊢
    cases hsettled : index.contains parent with
    | true => exact .inr rfl
    | false =>
      rcases hj with hj | hj
      · obtain ⟨d, hd, rfl⟩ := List.mem_map.mp hj
        have hdeclared := (names_iff_of_mem_unsettledChain hdrafts hd).mp hnames
        refine .inl (mem_map_unsettledChain_of_names hdrafts hd hdeclared ?_ hparent)
        simpa [SortedMap.contains] using hsettled
      · exact absurd (h.above hj hnames hparent) (by simp [hsettled])
  cut := by
    intro j hj
    rcases hj.of_settleChain hdrafts with hold | ⟨d, rfl, hlast, parent, hdeclared, hnew, hparent⟩
    · refine ⟨(h.cut hold).1, fun {other} hreach hother => ?_⟩
      rcases hother.of_settleChain hdrafts with hotherOld | ⟨d, rfl, hlast, -⟩
      · exact (h.cut hold).2 hreach hotherOld
      · -- the last of the chain is not settled before, but all above is
        have hnew := contains_of_mem_unsettledChain hdrafts (List.mem_of_getLast? hlast)
        obtain ⟨above, hnames, -⟩ := hother.names
        have hbefore := h.contains_of_transGen hold.settled hreach hnames.contains
        exact absurd hbefore (by simp [hnew])
    · have hd := List.mem_of_getLast? hlast
      have hmem := List.mem_map_of_mem (f := Draft.id) hd
      have hnames := (names_iff_of_mem_unsettledChain hdrafts hd).mpr hdeclared
      obtain ⟨e, he, rfl⟩ := List.mem_map.mp
        (mem_map_unsettledChain_of_names hdrafts hd hdeclared hnew hparent)
      refine ⟨.head' hnames (reflTransGen_getLast_unsettledChain hdrafts hlast he),
        fun {other} hreach hother => ?_⟩
      have hin := mem_map_of_transGen hdrafts hlast hdeclared hnew hparent hmem hreach
      rcases hother.of_settleChain hdrafts with hold | ⟨d', rfl, hlast', -⟩
      · obtain ⟨e', he', rfl⟩ := List.mem_map.mp hin
        exact absurd hold.settled (by simp [contains_of_mem_unsettledChain hdrafts he'])
      · rw [Option.some.inj (hlast.symm.trans hlast')]

/-- The two facts hold once all ids have come up, in whatever order. -/
theorem defused_foldl_settleChain (h : Defused drafts index) (hdrafts : drafts.Keyed Draft.id)
    (ids : List RegionId) : Defused drafts (ids.foldl (settleChain drafts) index) := by
  induction ids generalizing index with
  | nil => exact h
  | cons id rest ih => exact ih (h.settleChain hdrafts id)

end Step

/-! ### On every circle there is a region that was cut -/

/-- Going up from a region on a circle one comes to a region that was cut, for the way up ends and
the circle does not. -/
theorem exists_cut_of_climb (hgrown : Grown drafts index) {id : RegionId} {path : List Region}
    (hclimb : index.Climb id path) (hcircle : TransGen (NamesParent drafts) id id) :
    ∃ root, ReflTransGen (NamesParent drafts) id root ∧ Cut drafts index root := by
  induction hclimb with
  | @root id r hr hroot =>
    obtain ⟨parent, hnames, hback⟩ := TransGen.head'_iff.mp hcircle
    have hparent : drafts.contains parent = true := by
      rcases hback.cases_head with rfl | ⟨_, hnext, -⟩
      · exact hnames.contains
      · exact hnext.contains
    exact ⟨id, .refl, SortedMap.contains_of_get? hr,
      by rw [RegionIndex.parentOf, hr, Option.bind_some, hroot], parent, hnames, hparent⟩
  | @up id parent r path hr hparent hpath ih =>
    obtain ⟨next, hnames, hback⟩ := TransGen.head'_iff.mp hcircle
    obtain rfl := (hgrown.names_parent hr hparent).unique hnames
    obtain ⟨root, hreach, hcut⟩ := ih (TransGen.tail' hback hnames)
    exact ⟨root, .head hnames hreach, hcut⟩

/-! ### What becomes of the parents -/

section Parents

/-- A region whose parent is missing becomes a root. -/
theorem parentOf_of_missing (hgrown : Grown drafts index) {id parent : RegionId}
    (hnames : NamesParent drafts id parent) (hmissing : drafts.contains parent = false) :
    index.parentOf id = none := by
  cases hr : index.get? id with
  | none => rw [RegionIndex.parentOf, hr, Option.bind_none]
  | some r =>
    cases hparent : r.parent with
    | none => rw [RegionIndex.parentOf, hr, Option.bind_some, hparent]
    | some other =>
      obtain rfl := (hgrown.names_parent hr hparent).unique hnames
      obtain ⟨s, hs⟩ := hgrown.exists_parent hr hparent
      obtain ⟨d, hd, -⟩ := hgrown.exists_draft hs
      exact absurd (SortedMap.contains_of_get? hd) (by simp [hmissing])

/-- A region that was not cut keeps its parent, if that is there. -/
theorem parentOf_of_not_cut (hgrown : Grown drafts index) {id parent : RegionId}
    (hsettled : index.contains id = true) (hnames : NamesParent drafts id parent)
    (hparent : drafts.contains parent = true) (hcut : ¬ Cut drafts index id) :
    index.parentOf id = some parent := by
  cases hkept : index.parentOf id with
  | none => exact absurd ⟨hsettled, hkept, parent, hnames, hparent⟩ hcut
  | some other =>
    obtain ⟨r, hr, hother⟩ := Option.bind_eq_some_iff.mp hkept
    rw [(hgrown.names_parent hr hother).unique hnames]

variable (hgrown : Grown drafts index) (hdefused : Defused drafts index)
  (hall : ∀ {id}, drafts.contains id = true → index.contains id = true)

include hgrown hdefused hall

/-- On a circle one region becomes a root, and all others keep their parents. -/
theorem exists_root_of_chain {c : Cycle RegionId} (hne : c ≠ .nil)
    (hc : c.Chain (NamesParent drafts)) :
    ∃ root ∈ c, index.parentOf root = none ∧
      ∀ id ∈ c, id ≠ root → ∃ parent ∈ c, NamesParent drafts id parent ∧
        index.parentOf id = some parent := by
  have hnext : ∀ {id parent}, id ∈ c → NamesParent drafts id parent → parent ∈ c := by
    intro id parent hid hnames
    obtain ⟨other, hother, hlink⟩ := exists_mem_of_chain hc hid
    exact hnames.unique hlink ▸ hother
  obtain ⟨start, hstart⟩ := exists_mem_of_ne_nil hne
  obtain ⟨above, -, hnames⟩ := exists_mem_of_chain hc hstart
  obtain ⟨r, hr⟩ := SortedMap.contains_iff.mp (hall hnames.contains)
  obtain ⟨path, hclimb⟩ := hgrown.exists_climb hr
  obtain ⟨root, hreach, hcut⟩ :=
    exists_cut_of_climb hgrown hclimb (transGen_of_chain hc hstart hstart)
  have hroot : root ∈ c := by
    clear hcut
    induction hreach with
    | refl => exact hstart
    | tail _ hlink ih => exact hnext ih hlink
  refine ⟨root, hroot, hcut.root, fun id hid hne => ?_⟩
  obtain ⟨parent, hparent, hlink⟩ := exists_mem_of_chain hc hid
  obtain ⟨_, -, hbeyond⟩ := exists_mem_of_chain hc hparent
  refine ⟨parent, hparent, hlink, ?_⟩
  refine parentOf_of_not_cut hgrown (hall hlink.contains) hlink hbeyond.contains fun hidcut => ?_
  exact hne ((hdefused.cut hcut).2 (transGen_of_chain hc hroot hid) hidcut)

end Parents

/-! ### Arranging -/

/-- The drafts of a list by their ids. -/
abbrev draftsById (drafts : List Draft) : SortedMap RegionId Draft :=
  SortedMap.ofList (drafts.map fun d => (d.id, d))

theorem contains_draftsById_iff {drafts : List Draft} {id : RegionId} :
    (draftsById drafts).contains id = true ↔ id ∈ drafts.map Draft.id := by
  rw [SortedMap.contains_iff]
  refine ⟨fun ⟨d, hd⟩ => ?_, exists_get?_ofList_drafts⟩
  have hid := keyed_ofList_drafts drafts id d hd
  rw [get?_ofList_drafts] at hd
  exact hid ▸ List.mem_map_of_mem (List.mem_filter.mp (List.mem_of_getLast? hd)).1

/-- An arrangement has grown, with the two facts, and leaves out no draft. -/
theorem exists_defused_arrange (drafts : List Draft) :
    ∃ index, Grown (draftsById drafts) index ∧ Defused (draftsById drafts) index ∧
      (∀ id, (arrange drafts).parentOf id = index.parentOf id) ∧
      ∀ {id}, (draftsById drafts).contains id = true → index.contains id = true := by
  have hkeyed := keyed_ofList_drafts drafts
  have hids : ∀ id ∈ drafts.map Draft.id, ∃ d, (draftsById drafts).get? id = some d :=
    fun id hid => exists_get?_ofList_drafts hid
  obtain ⟨hgrown, hall⟩ := grown_foldl_settleChain hkeyed hids .empty
  refine ⟨_, hgrown, defused_foldl_settleChain (.empty _) hkeyed _, ?_, ?_⟩
  · exact fun id => parentOf_linkChildren _ id
  · intro id hid
    exact SortedMap.contains_iff.mpr (hall id (.inl (contains_draftsById_iff.mp hid)))

/-- Going up through what is not settled takes no more steps than there are ids. -/
theorem length_unsettledChain_le (drafts : List Draft) (settled : RegionIndex) (id : RegionId) :
    (unsettledChain (draftsById drafts) settled id).length ≤
      (drafts.map Draft.id).dedup.length := by
  have hkeyed := keyed_ofList_drafts drafts
  rw [← List.length_map (f := Draft.id)]
  refine ((nodup_unsettledChain hkeyed id).subperm fun target htarget => ?_).length_le
  obtain ⟨d, hd, rfl⟩ := List.mem_map.mp htarget
  have hget := get?_drafts_of_mem_unsettledChain hkeyed hd
  exact List.mem_dedup.mpr (contains_draftsById_iff.mp (SortedMap.contains_of_get? hget))

/-! ### Loading -/

/-- Of some definitions, the last one with an id names a parent. Ids that are blank do not count. -/
def Declares (definitions : List RegionDefinition) (id parent : RegionId) : Prop :=
  id ∈ idsOf definitions ∧
    ((definitions.filter fun d => d.id = id).getLast?).bind RegionDefinition.parent = some parent

instance (definitions : List RegionDefinition) (id parent : RegionId) :
    Decidable (Declares definitions id parent) :=
  inferInstanceAs (Decidable (_ ∧ _))

namespace Engine

variable {δ σ : Type} [ArtifactStore σ]

theorem contains_draftsOf_iff {s : σ} {definitions : List RegionDefinition} {id : RegionId} :
    (draftsById (draftsOf s definitions).1).contains id = true ↔ id ∈ idsOf definitions :=
  contains_draftsById_iff.trans mem_ids_draftsOf

/-- The drafts name what the definitions declare. -/
theorem names_draftsOf_iff {s : σ} {definitions : List RegionDefinition} {id parent : RegionId} :
    NamesParent (draftsById (draftsOf s definitions).1) id parent ↔
      Declares definitions id parent := by
  constructor
  · intro hnames
    have hid := contains_draftsOf_iff.mp hnames.contains
    obtain ⟨d, hd, hparent⟩ := hnames
    rw [get?_ofList_drafts] at hd
    refine ⟨hid, ?_⟩
    rw [← getLast?_draftsOf (s := s) hid, hd, Option.map_some, Option.bind_some, hparent]
  · rintro ⟨hid, hparent⟩
    obtain ⟨d, hd⟩ := SortedMap.contains_iff.mp (contains_draftsOf_iff (s := s).mpr hid)
    refine ⟨d, hd, ?_⟩
    rw [get?_ofList_drafts] at hd
    rw [← getLast?_draftsOf (s := s) hid, hd, Option.map_some, Option.bind_some] at hparent
    exact hparent

variable [DefinitionSource δ] {e : Engine δ σ} {definitions : List RegionDefinition}

/-- **What a load makes of the parents that are declared,** of ids that are not blank, each with its
last definition. The load comes to an end with a region for each id, and on its way up it never
takes more steps than there are ids. A parent that is missing is dropped. A region that is on no
circle keeps its parent if it is there, whatever lies above. And of each circle one region becomes a
root, while all others keep their parents. -/
theorem parents_reload (h : DefinitionSource.load e.source = .ok definitions) :
    e.reload.1 = .ok (idsOf definitions).length ∧
      (∀ id, e.reload.2.index.contains id = true ↔ id ∈ idsOf definitions) ∧
      (∀ settled id, (unsettledChain (draftsById (draftsOf e.store definitions).1) settled
        id).length ≤ (idsOf definitions).length) ∧
      (∀ id parent, Declares definitions id parent → parent ∉ idsOf definitions →
        e.reload.2.index.parentOf id = none) ∧
      (∀ id parent, Declares definitions id parent → parent ∈ idsOf definitions →
        (∀ c : Cycle RegionId, c.Chain (Declares definitions) → id ∉ c) →
        e.reload.2.index.parentOf id = some parent) ∧
      ∀ c : Cycle RegionId, c ≠ .nil → c.Chain (Declares definitions) →
        ∃ root ∈ c, e.reload.2.index.parentOf root = none ∧
          ∀ id ∈ c, id ≠ root → ∃ parent ∈ c, Declares definitions id parent ∧
            e.reload.2.index.parentOf id = some parent := by
  obtain ⟨index, hgrown, hdefused, hparents, hall⟩ :=
    exists_defused_arrange (draftsOf e.store definitions).1
  have hnames : NamesParent (draftsById (draftsOf e.store definitions).1) =
      Declares definitions := by
    funext id parent
    exact propext names_draftsOf_iff
  have hkeys : ∀ id, e.reload.2.index.contains id = true ↔ id ∈ idsOf definitions := by
    intro id
    rw [SortedMap.contains_iff, exists_get?_reload_iff h]
  rw [index_reload h] at hkeys ⊢
  simp only [hparents, ← hnames, ← contains_draftsOf_iff (s := e.store)] at hkeys ⊢
  refine ⟨(forest_reload h).1, hkeys, fun settled id => ?_, fun id parent hlink hmissing => ?_,
    fun id parent hlink hparent hcircle => ?_,
    fun c hne hc => exists_root_of_chain hgrown hdefused hall hne hc⟩
  · have hlength := length_unsettledChain_le (draftsOf e.store definitions).1 settled id
    rwa [map_id_draftsOf] at hlength
  · exact parentOf_of_missing hgrown hlink (by simpa using hmissing)
  · refine parentOf_of_not_cut hgrown (hall hlink.contains) hlink hparent fun hcut => ?_
    obtain ⟨c, hc, hid⟩ := exists_chain_of_transGen (hdefused.cut hcut).1
    exact hcircle c hc hid

/-- Tangled definitions, and a region that leads into one of their circles. -/
def tailed : List RegionDefinition :=
  { id := ⟨"weir"⟩, parent := some ⟨"mill"⟩ } :: tangled

/-- An engine that loads them. -/
def tailedEngine : Engine MemorySource MemoryStore :=
  .start { definitions := tailed } {} (fun _ => none) 16 true

theorem parents_reload_tailed :
    DefinitionSource.load tailedEngine.source = .ok tailed ∧
      tailedEngine.reload.1 = .ok 5 ∧
      tailedEngine.reload.2.index.parentOf ⟨"barn"⟩ = none ∧
      tailedEngine.reload.2.index.parentOf ⟨"well"⟩ = none ∧
      tailedEngine.reload.2.index.parentOf ⟨"weir"⟩ = some ⟨"mill"⟩ ∧
      ∃ root ∈ ([⟨"mill"⟩, ⟨"pond"⟩] : List RegionId),
        tailedEngine.reload.2.index.parentOf root = none := by
  have hload : DefinitionSource.load tailedEngine.source = .ok tailed := rfl
  have hids : (idsOf tailed).length = 5 := by decide
  obtain ⟨hcount, -, -, hmissing, hkept, hcut⟩ := parents_reload hload
  have hfree : ∀ c : Cycle RegionId, c.Chain (Declares tailed) → (⟨"weir"⟩ : RegionId) ∉ c := by
    intro c hc hid
    obtain ⟨child, -, hdeclares⟩ := TransGen.tail'_iff.mp (transGen_of_chain hc hid hid)
    have hnone : ∀ child ∈ idsOf tailed, ¬ Declares tailed child ⟨"weir"⟩ := by decide
    exact hnone child hdeclares.1 hdeclares
  refine ⟨hload, hids ▸ hcount, hmissing ⟨"barn"⟩ ⟨"farm"⟩ (by decide) (by decide), ?_,
    hkept ⟨"weir"⟩ ⟨"mill"⟩ (by decide) (by decide) hfree, ?_⟩
  · obtain ⟨root, hroot, hnone, -⟩ := hcut ([⟨"well"⟩] : List RegionId) (by decide)
      ((Cycle.chain_singleton _ _).mpr (by decide))
    rwa [List.mem_singleton.mp hroot] at hnone
  · obtain ⟨root, hroot, hnone, -⟩ := hcut ([⟨"mill"⟩, ⟨"pond"⟩] : List RegionId) (by decide)
      ((Cycle.chain_coe_cons ..).mpr (by decide))
    exact ⟨root, hroot, hnone⟩

end Engine

end RegionPolicy
