import RegionPolicy.Proofs.Lineage

/-!
# Arranged regions are a forest

`arrange` settles regions one after the other. Two facts about a single step carry everything: a
region is settled only while its id is new, and the parent that it gets, if any, was settled before
it. So an index under arrangement only ever grows, nothing in it changes, and its links point back
in time; circles among the declared parents cannot survive.

## Main definitions

* `RegionIndex.Climb` — the way up from a region to a root.
* `RegionIndex.Forest` — every region reaches a root, and children are parents read backwards.
* `RegionIndex.Settled` — every region has what it gets below its parent.
* `Grown` — the indexes that arise when drafts are settled one by one.

## Main results

* `RegionIndex.Climb.lineage_eq` — where there is a way up, it is the lineage.
* `grown_foldl_settleChain` — arranging is settling one by one, and leaves out no draft.
* `Grown.forest_linkChildren`, `Grown.settled_linkChildren` — what has grown is a forest.
* `forest_arrange`, `settled_arrange`, `draft_of_get?_arrange`, `mem_keys_arrange` — what is known
  of an arrangement.
-/

namespace RegionPolicy

namespace RegionIndex

variable {index : RegionIndex}

/-! ### Ways up -/

/-- The regions on the way up from an id. The way ends at a root. -/
inductive Climb (index : RegionIndex) : RegionId → List Region → Prop where
  | root {id : RegionId} {r : Region} (hr : index.get? id = some r) (hparent : r.parent = none) :
    Climb index id [r]
  | up {id parent : RegionId} {r : Region} {path : List Region} (hr : index.get? id = some r)
    (hparent : r.parent = some parent) (hpath : Climb index parent path) :
    Climb index id (r :: path)

namespace Climb

theorem unique {id : RegionId} {path path' : List Region} (h : index.Climb id path)
    (h' : index.Climb id path') : path = path' := by
  induction h generalizing path' with
  | root hr hparent =>
    cases h' with
    | root hr' hparent' => rw [Option.some.inj (hr.symm.trans hr')]
    | up hr' hparent' hpath' =>
      rw [← Option.some.inj (hr.symm.trans hr'), hparent] at hparent'
      cases hparent'
  | up hr hparent hpath ih =>
    cases h' with
    | root hr' hparent' =>
      rw [← Option.some.inj (hr.symm.trans hr'), hparent] at hparent'
      cases hparent'
    | up hr' hparent' hpath' =>
      rw [← Option.some.inj (hr.symm.trans hr'), hparent] at hparent'
      rw [Option.some.inj (hr.symm.trans hr'), ih (Option.some.inj hparent' ▸ hpath')]

/-- From every region on the way there is a way up, the rest of this one. -/
theorem of_mem (hindex : index.Keyed Region.id) {id : RegionId} {path : List Region}
    (h : index.Climb id path) {s : Region} (hs : s ∈ path) :
    ∃ rest, index.Climb s.id rest ∧ rest <:+ path := by
  induction h with
  | root hr hparent =>
    rw [List.mem_singleton.mp hs, hindex _ _ hr]
    exact ⟨_, .root hr hparent, List.suffix_refl _⟩
  | @up id parent r path hr hparent hpath ih =>
    rcases List.mem_cons.mp hs with rfl | hs
    · rw [hindex _ _ hr]
      exact ⟨_, .up hr hparent hpath, List.suffix_refl _⟩
    · obtain ⟨rest, hrest, hsuffix⟩ := ih hs
      exact ⟨rest, hrest, hsuffix.trans (List.suffix_cons r path)⟩

/-- No id is met twice on a way up: the rest of the way would be as long as the whole. -/
theorem id_ne_of_mem (hindex : index.Keyed Region.id) {id parent : RegionId} {r s : Region}
    {path : List Region} (hr : index.get? id = some r) (hparent : r.parent = some parent)
    (hpath : index.Climb parent path) (hs : s ∈ path) : s.id ≠ id := by
  intro hid
  obtain ⟨rest, hrest, hsuffix⟩ := hpath.of_mem hindex hs
  have hwhole : r :: path = rest := (Climb.up hr hparent hpath).unique (hid ▸ hrest)
  have hlength := hsuffix.length_le
  rw [← hwhole, List.length_cons] at hlength
  omega

theorem nodup (hindex : index.Keyed Region.id) {id : RegionId} {path : List Region}
    (h : index.Climb id path) : (path.map Region.id).Nodup := by
  induction h with
  | root hr hparent => simp
  | @up id parent r path hr hparent hpath ih =>
    rw [List.map_cons, List.nodup_cons]
    refine ⟨fun hmem => ?_, ih⟩
    obtain ⟨s, hs, hid⟩ := List.mem_map.mp hmem
    exact id_ne_of_mem hindex hr hparent hpath hs (hid.trans (hindex _ _ hr))

/-- **Where there is a way up, it is the lineage.** -/
theorem lineage_eq (hindex : index.Keyed Region.id) {id : RegionId} {path : List Region}
    (h : index.Climb id path) : index.lineage id = path.reverse := by
  rw [lineage]
  congr 1
  induction h with
  | root hr hparent =>
    rw [SortedMap.follow_of_get?_eq_some hr, hparent, SortedMap.follow_none]
  | @up id parent r path hr hparent hpath ih =>
    have hnew : ∀ s ∈ SortedMap.follow Region.parent index r.parent, s.id ≠ id := by
      rw [hparent, ih]
      exact fun s hs => id_ne_of_mem hindex hr hparent hpath hs
    rw [SortedMap.follow_eq_cons hindex hr hnew, hparent, ih]

theorem insert {id new : RegionId} {r : Region} (hnew : index.get? new = none)
    {path : List Region} (h : index.Climb id path) : Climb (index.insert new r) id path := by
  have hkeep : ∀ {id s}, index.get? id = some s →
      SortedMap.get? (index.insert new r) id = some s := by
    intro id s hs
    rw [SortedMap.get?_insert_of_ne, hs]
    rintro rfl
    rw [hnew] at hs
    cases hs
  induction h with
  | root hr hparent => exact .root (hkeep hr) hparent
  | up hr hparent hpath ih => exact .up (hkeep hr) hparent ih

theorem mapValues {f : RegionId → Region → Region} (hparent : ∀ id r, (f id r).parent = r.parent)
    {id : RegionId} {path : List Region} (h : index.Climb id path) :
    ∃ path', Climb (index.mapValues f) id path' := by
  induction h with
  | @root id r hr hroot =>
    exact ⟨_, .root (r := f id r) (by simp [hr]) (by rw [hparent, hroot])⟩
  | @up id parent r path hr hup hpath ih =>
    obtain ⟨path', hpath'⟩ := ih
    exact ⟨_, .up (r := f id r) (by simp [hr]) (by rw [hparent, hup]) hpath'⟩

end Climb

/-! ### Forests -/

/-- A forest of regions. -/
structure Forest (index : RegionIndex) : Prop where
  /-- Every region stands under its own id. -/
  keyed : index.Keyed Region.id
  /-- A parent is a region of the index. -/
  contains_parent : ∀ {id r parent}, index.get? id = some r → r.parent = some parent →
    index.contains parent = true
  /-- Going up from a region one reaches a root, and meets no id twice. -/
  climb : ∀ {id r}, index.get? id = some r →
    ∃ path, index.Climb id path ∧ (path.map Region.id).Nodup
  /-- The children of a region are those whose parent it is. -/
  mem_children : ∀ {id r}, index.get? id = some r → ∀ child,
    child ∈ r.children ↔ ∃ s, index.get? child = some s ∧ s.parent = some id

/-- Every region has what it gets below its parent. -/
def Settled (index : RegionIndex) : Prop :=
  ∀ id r, index.get? id = some r →
    r = { Region.under (r.parent.bind index.get?) r.definition r.shape with children := r.children }

end RegionIndex

/-! ### Settling one by one -/

@[simp] theorem Region.definition_under (above : Option Region) (definition : RegionDefinition)
    (shape : Shape) : (Region.under above definition shape).definition = definition := by
  cases above <;> rfl

@[simp] theorem Region.shape_under (above : Option Region) (definition : RegionDefinition)
    (shape : Shape) : (Region.under above definition shape).shape = shape := by
  cases above <;> rfl

/-- A region below another keeps the parent that it names; a root has none. -/
theorem Region.parent_under (above : Option Region) (definition : RegionDefinition)
    (shape : Shape) :
    (Region.under above definition shape).parent = above.bind fun _ => definition.parent := by
  cases above <;> rfl

/-- The indexes that arise from an empty one when drafts are settled one by one, each under an id
that is new. -/
inductive Grown (drafts : SortedMap RegionId Draft) : RegionIndex → Prop where
  | empty : Grown drafts ∅
  | step {index : RegionIndex} {d : Draft} (h : Grown drafts index)
    (hd : drafts.get? d.id = some d) (hnew : index.get? d.id = none) :
    Grown drafts (settle d index)

theorem get?_settle (d : Draft) (index : RegionIndex) (id : RegionId) :
    (settle d index).get? id =
      if id = d.id then
        some (.under (d.definition.parent.bind index.get?) d.definition d.shape)
      else index.get? id :=
  SortedMap.get?_insert ..

namespace Grown

variable {drafts : SortedMap RegionId Draft} {index : RegionIndex}

theorem keyed (h : Grown drafts index) : index.Keyed Region.id := by
  induction h with
  | empty => exact SortedMap.keyed_empty _
  | step h hd hnew ih => exact ih.insert (congrArg RegionDefinition.id (Region.definition_under ..))

/-- A region comes from the draft of its id. -/
theorem exists_draft (h : Grown drafts index) {id : RegionId} {r : Region}
    (hr : index.get? id = some r) :
    ∃ d, drafts.get? id = some d ∧ r.definition = d.definition ∧ r.shape = d.shape := by
  induction h with
  | empty => cases hr
  | @step index d h hd hnew ih =>
    rw [get?_settle] at hr
    split at hr
    · rename_i hid
      rw [← Option.some.inj hr, hid]
      exact ⟨d, hd, Region.definition_under .., Region.shape_under ..⟩
    · exact ih hr

/-- Settling a draft whose id is new changes no region that is there. -/
theorem get?_settle_of_get? {d : Draft} (hnew : index.get? d.id = none) {id : RegionId}
    {r : Region} (hr : index.get? id = some r) : (settle d index).get? id = some r := by
  rw [get?_settle, if_neg, hr]
  rintro rfl
  rw [hnew] at hr
  cases hr

/-- The parent of a draft that is being settled was settled before it. -/
theorem parent_of_settle {d : Draft} {parent : RegionId}
    (h : (Region.under (d.definition.parent.bind index.get?) d.definition d.shape).parent =
      some parent) :
    d.definition.parent = some parent ∧ ∃ s, index.get? parent = some s := by
  rw [Region.parent_under] at h
  obtain ⟨s, hs, hparent⟩ := Option.bind_eq_some_iff.mp h
  obtain ⟨above, habove, hget⟩ := Option.bind_eq_some_iff.mp hs
  rw [hparent] at habove
  exact ⟨hparent, s, Option.some.inj habove ▸ hget⟩

theorem exists_parent (h : Grown drafts index) {id parent : RegionId} {r : Region}
    (hr : index.get? id = some r) (hparent : r.parent = some parent) :
    ∃ s, index.get? parent = some s := by
  induction h with
  | empty => cases hr
  | @step index d h hd hnew ih =>
    rw [get?_settle] at hr
    have hbefore : ∃ s, index.get? parent = some s := by
      split at hr
      · rw [← Option.some.inj hr] at hparent
        exact (parent_of_settle hparent).2
      · exact ih hr
    obtain ⟨s, hs⟩ := hbefore
    exact ⟨s, get?_settle_of_get? hnew hs⟩

theorem exists_climb (h : Grown drafts index) {id : RegionId} {r : Region}
    (hr : index.get? id = some r) : ∃ path, index.Climb id path := by
  induction h generalizing id r with
  | empty => cases hr
  | @step index d h hd hnew ih =>
    have hget := hr
    rw [get?_settle] at hr
    split at hr
    · cases hparent : r.parent with
      | none => exact ⟨[r], .root hget hparent⟩
      | some parent =>
        have hsettled := hparent
        rw [← Option.some.inj hr] at hsettled
        obtain ⟨-, s, hs⟩ := parent_of_settle hsettled
        obtain ⟨path, hpath⟩ := ih hs
        exact ⟨r :: path, .up hget hparent (hpath.insert hnew)⟩
    · obtain ⟨path, hpath⟩ := ih hr
      exact ⟨path, hpath.insert hnew⟩

theorem eq_under (h : Grown drafts index) {id : RegionId} {r : Region}
    (hr : index.get? id = some r) :
    r = .under (r.parent.bind index.get?) r.definition r.shape := by
  induction h generalizing id r with
  | empty => cases hr
  | @step index d h hd hnew ih =>
    rw [get?_settle] at hr
    -- the parent was settled before, so it is looked up with the same result
    have hsame : r.parent.bind (settle d index).get? = r.parent.bind index.get? := by
      cases hparent : r.parent with
      | none => rfl
      | some parent =>
        have hbefore : ∃ s, index.get? parent = some s := by
          split at hr
          · rw [← Option.some.inj hr] at hparent
            exact (parent_of_settle hparent).2
          · exact h.exists_parent hr hparent
        obtain ⟨s, hs⟩ := hbefore
        simp only [Option.bind_some, hs, get?_settle_of_get? hnew hs]
    rw [hsame]
    split at hr
    · obtain rfl := Option.some.inj hr
      rw [Region.definition_under, Region.shape_under, Region.parent_under]
      cases habove : d.definition.parent.bind index.get? with
      | none => rfl
      | some above =>
        obtain ⟨parent, hparent, hget⟩ := Option.bind_eq_some_iff.mp habove
        simp only [Option.bind_some, hparent, hget]
    · exact ih hr

/-! ### Settling a chain -/

theorem get?_foldr_settle_of_not_mem {l : List Draft} {id : RegionId} (h : id ∉ l.map Draft.id) :
    (l.foldr settle index).get? id = index.get? id := by
  induction l with
  | nil => rfl
  | cons d rest ih =>
    rw [List.map_cons, List.mem_cons, not_or] at h
    rw [List.foldr_cons, get?_settle, if_neg h.1, ih h.2]

theorem exists_get?_foldr_settle {l : List Draft} {id : RegionId}
    (h : id ∈ l.map Draft.id ∨ ∃ r, index.get? id = some r) :
    ∃ r, (l.foldr settle index).get? id = some r := by
  induction l with
  | nil => simpa using h
  | cons d rest ih =>
    rw [List.foldr_cons, get?_settle]
    split
    · exact ⟨_, rfl⟩
    · rename_i hid
      rw [List.map_cons, List.mem_cons, or_assoc] at h
      exact ih (h.resolve_left hid)

theorem foldr_settle {l : List Draft} (h : Grown drafts index) (hnodup : (l.map Draft.id).Nodup)
    (hdrafts : ∀ d ∈ l, drafts.get? d.id = some d) (hnew : ∀ d ∈ l, index.get? d.id = none) :
    Grown drafts (l.foldr settle index) := by
  induction l with
  | nil => exact h
  | cons d rest ih =>
    rw [List.map_cons, List.nodup_cons] at hnodup
    have hrest : Grown drafts (rest.foldr settle index) :=
      ih hnodup.2 (fun d hd => hdrafts d (List.mem_cons_of_mem _ hd))
        fun d hd => hnew d (List.mem_cons_of_mem _ hd)
    refine .step hrest (hdrafts d List.mem_cons_self) ?_
    rw [get?_foldr_settle_of_not_mem hnodup.1]
    exact hnew d List.mem_cons_self

end Grown

/-! ### Settling with all above -/

section Chain

variable {drafts : SortedMap RegionId Draft} {index : RegionIndex}

/-- Of an id that passed the test for being unsettled there is no region yet. -/
theorem get?_of_filter_unsettled {parent : RegionId} {start : Option RegionId}
    (h : (start.filter fun id => !index.contains id) = some parent) :
    index.get? parent = none := by
  have hnew := (Option.filter_eq_some_iff.mp h).2
  simpa [SortedMap.contains] using hnew

theorem get?_drafts_of_mem_unsettledChain (hdrafts : drafts.Keyed Draft.id) {id : RegionId}
    {d : Draft} (hd : d ∈ unsettledChain drafts index id) : drafts.get? d.id = some d :=
  SortedMap.get?_of_mem_follow hdrafts hd

theorem get?_of_mem_unsettledChain (hdrafts : drafts.Keyed Draft.id) {id : RegionId} {d : Draft}
    (hd : d ∈ unsettledChain drafts index id) : index.get? d.id = none :=
  SortedMap.key_of_mem_follow (motive := fun id => index.get? id = none) hdrafts
    (fun _ h => get?_of_filter_unsettled h) (fun _ _ h => get?_of_filter_unsettled h) hd

theorem nodup_unsettledChain (hdrafts : drafts.Keyed Draft.id) (id : RegionId) :
    ((unsettledChain drafts index id).map Draft.id).Nodup :=
  SortedMap.nodup_follow hdrafts _

/-- A draft that is not settled yet is the first of its chain. -/
theorem mem_map_unsettledChain {id : RegionId} {d : Draft} (hdrafts : drafts.Keyed Draft.id)
    (hd : drafts.get? id = some d) (hnew : index.get? id = none) :
    id ∈ (unsettledChain drafts index id).map Draft.id := by
  have hstart : ((some id).filter fun id => !index.contains id) = some id := by
    simp [SortedMap.contains, hnew]
  rw [unsettledChain]
  simp only [hstart]
  rw [SortedMap.follow_of_get?_eq_some hd, List.map_cons, hdrafts id d hd]
  exact List.mem_cons_self

/-- Settling a region with all above is settling one by one. -/
theorem Grown.settleChain (h : Grown drafts index) (hdrafts : drafts.Keyed Draft.id)
    (id : RegionId) : Grown drafts (settleChain drafts index id) :=
  h.foldr_settle (nodup_unsettledChain hdrafts id)
    (fun _ hd => get?_drafts_of_mem_unsettledChain hdrafts hd)
    fun _ hd => get?_of_mem_unsettledChain hdrafts hd

/-- Afterwards the region is settled, and so are all that were settled before. -/
theorem exists_get?_settleChain (hdrafts : drafts.Keyed Draft.id) {id target : RegionId}
    {d : Draft} (hd : drafts.get? id = some d)
    (h : target = id ∨ ∃ r, index.get? target = some r) :
    ∃ r, (settleChain drafts index id).get? target = some r := by
  refine Grown.exists_get?_foldr_settle ?_
  cases hnew : index.get? target with
  | some r => exact .inr ⟨r, rfl⟩
  | none =>
    obtain rfl := h.resolve_right (by simp [hnew])
    exact .inl (mem_map_unsettledChain hdrafts hd hnew)

/-- **Arranging is settling one by one, and leaves out no draft.** The induction is on the ids that
are still to come up. -/
theorem grown_foldl_settleChain (hdrafts : drafts.Keyed Draft.id) {ids : List RegionId}
    (hids : ∀ id ∈ ids, ∃ d, drafts.get? id = some d) (h : Grown drafts index) :
    Grown drafts (ids.foldl (settleChain drafts) index) ∧
      ∀ id, id ∈ ids ∨ (∃ r, index.get? id = some r) →
        ∃ r, (ids.foldl (settleChain drafts) index).get? id = some r := by
  induction ids generalizing index with
  | nil => exact ⟨h, fun id hid => by simpa using hid⟩
  | cons id rest ih =>
    obtain ⟨d, hd⟩ := hids id List.mem_cons_self
    obtain ⟨hgrown, hall⟩ :=
      ih (fun id hid => hids id (List.mem_cons_of_mem _ hid)) (h.settleChain hdrafts id)
    refine ⟨hgrown, fun target htarget => hall target ?_⟩
    rw [List.mem_cons, or_assoc, or_left_comm] at htarget
    exact htarget.imp_right (exists_get?_settleChain hdrafts hd)

end Chain

/-! ### Linking -/

section Link

variable {drafts : SortedMap RegionId Draft} {index : RegionIndex}

theorem get?_linkChildren (index : RegionIndex) (id : RegionId) :
    (linkChildren index).get? id =
      (index.get? id).map fun r => { r with children := childrenOf index id } :=
  SortedMap.get?_mapValues ..

theorem keyed_linkChildren (h : index.Keyed Region.id) : (linkChildren index).Keyed Region.id :=
  h.mapValues fun _ _ => rfl

theorem mem_childrenOf {id child : RegionId} :
    child ∈ childrenOf index id ↔ ∃ s, index.get? child = some s ∧ s.parent = some id := by
  simp only [childrenOf, SortedSet.mem_ofList, List.mem_map, List.mem_filter, decide_eq_true_eq]
  constructor
  · rintro ⟨⟨k, s⟩, ⟨he, hparent⟩, rfl⟩
    exact ⟨s, SortedMap.mem_entries_iff.mp he, hparent⟩
  · rintro ⟨s, hs, hparent⟩
    exact ⟨(child, s), ⟨SortedMap.mem_entries_iff.mpr hs, hparent⟩, rfl⟩

/-- **What has grown is a forest,** once every region knows its children. -/
theorem Grown.forest_linkChildren (h : Grown drafts index) : (linkChildren index).Forest where
  keyed := keyed_linkChildren h.keyed
  contains_parent := by
    intro id r parent hr hparent
    rw [get?_linkChildren] at hr
    obtain ⟨s, hs, rfl⟩ := Option.map_eq_some_iff.mp hr
    obtain ⟨t, ht⟩ := h.exists_parent hs hparent
    rw [SortedMap.contains_iff]
    exact ⟨_, by rw [get?_linkChildren, ht]; rfl⟩
  climb := by
    intro id r hr
    rw [get?_linkChildren] at hr
    obtain ⟨s, hs, -⟩ := Option.map_eq_some_iff.mp hr
    obtain ⟨path, hpath⟩ := h.exists_climb hs
    obtain ⟨path', hpath'⟩ :=
      hpath.mapValues (f := fun id r => { r with children := childrenOf index id }) fun _ _ => rfl
    exact ⟨path', hpath', RegionIndex.Climb.nodup (keyed_linkChildren h.keyed) hpath'⟩
  mem_children := by
    intro id r hr child
    rw [get?_linkChildren] at hr
    obtain ⟨s, hs, rfl⟩ := Option.map_eq_some_iff.mp hr
    simp only [mem_childrenOf, get?_linkChildren, Option.map_eq_some_iff]
    constructor
    · rintro ⟨t, ht, hparent⟩
      exact ⟨_, ⟨t, ht, rfl⟩, hparent⟩
    · rintro ⟨_, ⟨t, ht, rfl⟩, hparent⟩
      exact ⟨t, ht, hparent⟩

/-- Knowing its children does not change what a region hands down. -/
theorem Region.under_map_children (above : Option Region) (children : SortedSet RegionId)
    (definition : RegionDefinition) (shape : Shape) :
    Region.under (above.map fun r => { r with children }) definition shape =
      Region.under above definition shape := by
  cases above <;> rfl

theorem Grown.settled_linkChildren (h : Grown drafts index) : (linkChildren index).Settled := by
  intro id r hr
  rw [get?_linkChildren] at hr
  obtain ⟨s, hs, rfl⟩ := Option.map_eq_some_iff.mp hr
  have hunder := h.eq_under hs
  have habove : Region.under (s.parent.bind (linkChildren index).get?) s.definition s.shape =
      Region.under (s.parent.bind index.get?) s.definition s.shape := by
    cases s.parent with
    | none => rfl
    | some parent =>
      simp only [Option.bind_some, get?_linkChildren]
      exact Region.under_map_children ..
  simp only [habove]
  rw [← hunder]

end Link

/-! ### Arranging -/

section Arrange

variable {drafts : List Draft}

/-- The drafts of a list by their ids; of several with one id the last counts. -/
theorem get?_ofList_drafts (drafts : List Draft) (id : RegionId) :
    (SortedMap.ofList (drafts.map fun d => (d.id, d))).get? id =
      (drafts.filter fun d => d.id = id).getLast? := by
  rw [SortedMap.get?_ofList, List.filter_map, List.getLast?_map, Option.map_map]
  exact congrFun Option.map_id _

theorem keyed_ofList_drafts (drafts : List Draft) :
    (SortedMap.ofList (drafts.map fun d => (d.id, d))).Keyed Draft.id := by
  intro id d hd
  rw [get?_ofList_drafts] at hd
  simpa using (List.mem_filter.mp (List.mem_of_getLast? hd)).2

theorem exists_get?_ofList_drafts {id : RegionId} (h : id ∈ drafts.map Draft.id) :
    ∃ d, (SortedMap.ofList (drafts.map fun d => (d.id, d))).get? id = some d := by
  obtain ⟨d, hd, rfl⟩ := List.mem_map.mp h
  have hne : (drafts.filter fun e => e.id = d.id) ≠ [] :=
    List.ne_nil_of_mem (List.mem_filter.mpr ⟨hd, by simp⟩)
  exact ⟨_, by rw [get?_ofList_drafts, List.getLast?_eq_some_getLast hne]⟩

theorem grown_arrange (drafts : List Draft) :
    ∃ index, Grown (SortedMap.ofList (drafts.map fun d => (d.id, d))) index ∧
      arrange drafts = linkChildren index ∧
      ∀ id ∈ drafts.map Draft.id, ∃ r, index.get? id = some r := by
  obtain ⟨hgrown, hall⟩ := grown_foldl_settleChain (keyed_ofList_drafts drafts)
    (fun id hid => exists_get?_ofList_drafts hid) .empty
  exact ⟨_, hgrown, rfl, fun id hid => hall id (.inl hid)⟩

/-- **An arrangement is a forest,** whatever the parents that its drafts name. -/
theorem forest_arrange (drafts : List Draft) : (arrange drafts).Forest := by
  obtain ⟨index, hgrown, harrange, -⟩ := grown_arrange drafts
  exact harrange ▸ hgrown.forest_linkChildren

theorem settled_arrange (drafts : List Draft) : (arrange drafts).Settled := by
  obtain ⟨index, hgrown, harrange, -⟩ := grown_arrange drafts
  exact harrange ▸ hgrown.settled_linkChildren

/-- A region of an arrangement comes from the last draft with its id. -/
theorem draft_of_get?_arrange {id : RegionId} {r : Region}
    (h : (arrange drafts).get? id = some r) :
    ∃ d, (drafts.filter fun d => d.id = id).getLast? = some d ∧ r.definition = d.definition ∧
      r.shape = d.shape := by
  obtain ⟨index, hgrown, harrange, -⟩ := grown_arrange drafts
  rw [harrange, get?_linkChildren] at h
  obtain ⟨s, hs, rfl⟩ := Option.map_eq_some_iff.mp h
  obtain ⟨d, hd, hdefinition, hshape⟩ := hgrown.exists_draft hs
  rw [get?_ofList_drafts] at hd
  exact ⟨d, hd, hdefinition, hshape⟩

theorem definition_of_get?_arrange {id : RegionId} {r : Region}
    (h : (arrange drafts).get? id = some r) :
    ((drafts.filter fun d => d.id = id).getLast?).map Draft.definition = some r.definition := by
  obtain ⟨d, hd, hdefinition, -⟩ := draft_of_get?_arrange h
  rw [hd, Option.map_some, hdefinition]

/-- An arrangement has the ids of its drafts. -/
theorem mem_keys_arrange {id : RegionId} :
    id ∈ (arrange drafts).keys ↔ id ∈ drafts.map Draft.id := by
  obtain ⟨index, hgrown, harrange, hall⟩ := grown_arrange drafts
  rw [SortedMap.mem_keys_iff, harrange, get?_linkChildren, Option.isSome_map,
    Option.isSome_iff_exists]
  refine ⟨fun ⟨r, hr⟩ => ?_, hall id⟩
  obtain ⟨d, hd, -⟩ := hgrown.exists_draft hr
  have hid := keyed_ofList_drafts drafts id d hd
  rw [get?_ofList_drafts] at hd
  exact hid ▸ List.mem_map_of_mem (List.mem_filter.mp (List.mem_of_getLast? hd)).1

end Arrange

end RegionPolicy
