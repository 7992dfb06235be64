import RegionPolicy.Engine.State
import RegionPolicy.Proofs.Supply

/-!
# What a flag comes to

The verdict on a flag, said without going through bindings one by one and without a binding graph.
Of the supplier's own bindings the handler is shown those that it takes, in the order in which they
are written. The first that makes the handler deny or fail decides. If none does, whatever is to be
done comes first, then what is allowed, and else the flag passes.

## Main definitions

* `HandlerEntry.ruling` — what bindings come to.
* `Engine.ruling` — what a flag comes to.
* `Engine.Fresh` — what is kept for a region, if anything, is right.

## Main results

* `examine_eq` — showing bindings one by one comes to the same.
* `Engine.evaluate_eq_ruling` — looking at a flag gives that verdict, puts that decision on record,
  and changes nothing else but what is kept.
-/

namespace RegionPolicy

/-! ### What bindings come to -/

namespace HandlerEntry

/-- Whether the handler is shown a binding. -/
def takes (entry : HandlerEntry) (b : ResolvedBinding) : Bool :=
  b.binding.value.kind = entry.kind

/-- The ruling that a binding leads to at once, if it does: a denial, which goes on record, or a
failure, which does not. -/
def atOnce (entry : HandlerEntry) (c : Context) (b : ResolvedBinding) :
    Option (Except HandlerError Ruling) :=
  match entry.handler c b with
  | .error failure => some (.error failure)
  | .ok (.denied reason) => some (.ok ⟨.denied reason, some (c.decision .deny b reason)⟩)
  | .ok _ => none

/-- What is to be done on account of a binding. -/
def requests (entry : HandlerEntry) (c : Context) (b : ResolvedBinding) :
    List (String × Json.Value) :=
  match entry.handler c b with
  | .ok (.modify metadata) => metadata.entries
  | _ => []

/-- Whether a binding allows. -/
def allows (entry : HandlerEntry) (c : Context) (b : ResolvedBinding) : Bool :=
  match entry.handler c b with
  | .ok .allow => true
  | _ => false

/-- What the bindings shown to a handler come to. Of two things to be done of one name the later
counts, and of two bindings that allow the later goes on record. -/
def ruling (entry : HandlerEntry) (c : Context) (shown : List ResolvedBinding) :
    Except HandlerError Ruling :=
  match shown.findSome? (entry.atOnce c) with
  | some result => result
  | none =>
    let metadata : Metadata := .ofList (shown.flatMap (entry.requests c))
    if metadata.isEmpty then
      match (shown.filter (entry.allows c)).getLast? with
      | some b => .ok ⟨.allow, some (c.decision .allow b none)⟩
      | none => .ok ⟨.pass, none⟩
    else .ok ⟨.modify metadata, none⟩

end HandlerEntry

/-- What has come of some bindings more. -/
def Findings.add (f : Findings) (entry : HandlerEntry) (c : Context)
    (shown : List ResolvedBinding) : Findings where
  metadata := (shown.flatMap (entry.requests c)).foldl (fun m e => m.insert e.1 e.2) f.metadata
  allowedBy := ((shown.filter (entry.allows c)).getLast?).or f.allowedBy

theorem Findings.add_nil (f : Findings) (entry : HandlerEntry) (c : Context) :
    f.add entry c [] = f := by
  simp [add]

theorem Findings.add_cons (f : Findings) (entry : HandlerEntry) (c : Context)
    (b : ResolvedBinding) (rest : List ResolvedBinding) :
    f.add entry c (b :: rest) = (f.add entry c [b]).add entry c rest := by
  have hlast : ((b :: rest).filter (entry.allows c)).getLast? =
      ((rest.filter (entry.allows c)).getLast?).or (([b].filter (entry.allows c)).getLast?) := by
    rw [← List.getLast?_append, ← List.filter_append, List.singleton_append]
  simp only [add, hlast, Option.or_assoc, List.flatMap_cons, List.flatMap_nil, List.append_nil,
    List.foldl_append]

/-- **Showing bindings one by one comes to the same.** The induction is on the bindings; what was
found before is carried along. -/
theorem examine_eq (entry : HandlerEntry) (c : Context) (f : Findings)
    (bindings : List ResolvedBinding) :
    examine entry c f bindings =
      match (bindings.filter entry.takes).findSome? (entry.atOnce c) with
      | some result => result
      | none => .ok ((f.add entry c (bindings.filter entry.takes)).ruling c) := by
  induction bindings generalizing f with
  | nil => rw [List.filter_nil, List.findSome?_nil, Findings.add_nil, examine]
  | cons b rest ih =>
    rw [examine]
    by_cases htakes : b.binding.value.kind = entry.kind
    · rw [if_pos htakes, List.filter_cons_of_pos (by simpa [HandlerEntry.takes] using htakes),
        List.findSome?_cons, Findings.add_cons]
      cases hresult : entry.handler c b with
      | error failure => simp [HandlerEntry.atOnce, hresult]
      | ok verdict =>
        cases verdict with
        | denied reason => simp [HandlerEntry.atOnce, hresult]
        | modify metadata =>
          simp [HandlerEntry.atOnce, HandlerEntry.requests, HandlerEntry.allows, Findings.add,
            hresult, ih, mergeMetadata]
        | allow =>
          simp [HandlerEntry.atOnce, HandlerEntry.requests, HandlerEntry.allows, Findings.add,
            hresult, ih]
        | pass =>
          simp [HandlerEntry.atOnce, HandlerEntry.requests, HandlerEntry.allows, Findings.add,
            hresult, ih]
    · rw [if_neg htakes, List.filter_cons_of_neg (by simpa [HandlerEntry.takes] using htakes), ih]

theorem Findings.ruling_add_empty (entry : HandlerEntry) (c : Context)
    (shown : List ResolvedBinding) (h : shown.findSome? (entry.atOnce c) = none) :
    .ok ((({} : Findings).add entry c shown).ruling c) = entry.ruling c shown := by
  have hmetadata : (({} : Findings).add entry c shown).metadata =
      .ofList (shown.flatMap (entry.requests c)) := rfl
  have hallowed : (({} : Findings).add entry c shown).allowedBy =
      (shown.filter (entry.allows c)).getLast? := Option.or_none
  rw [HandlerEntry.ruling, h, Findings.ruling, hmetadata, hallowed]
  by_cases hempty : (SortedMap.ofList (shown.flatMap (entry.requests c))).isEmpty = true
  · simp only [hempty, if_true]
    cases (shown.filter (entry.allows c)).getLast? <;> rfl
  · simp only [hempty]
    rfl

/-- Starting from nothing, bindings come to what the handler makes of those that it takes. -/
theorem examine_empty (entry : HandlerEntry) (c : Context) (bindings : List ResolvedBinding) :
    examine entry c {} bindings = entry.ruling c (bindings.filter entry.takes) := by
  rw [examine_eq]
  cases h : (bindings.filter entry.takes).findSome? (entry.atOnce c) with
  | some result => simp only [HandlerEntry.ruling, h]
  | none => exact Findings.ruling_add_empty entry c _ h

/-! ### What a flag comes to -/

/-- **A binding graph rules as its region's supplier does.** -/
theorem RegionIndex.evaluate_bindings {index : RegionIndex} (hindex : index.Keyed Region.id)
    {c : Context} (hregion : index.get? c.region.id = some c.region) (entry : HandlerEntry)
    (key : FlagKey) :
    (index.bindings c.region).evaluate entry c key =
      match index.supplier? c.region key with
      | some s => entry.ruling c ((s.bindingsOf key).filter entry.takes)
      | none => .ok ⟨.pass, none⟩ := by
  rw [BindingGraph.evaluate, source_bindings hindex hregion]
  cases hsupplier : index.supplier? c.region key with
  | none => rfl
  | some s =>
    have hs : s ∈ index.lineage c.region.id := mem_lineage_of_supplier? hregion hsupplier
    simp only [Option.map_some]
    rw [filter_dispatch_bindings hindex hregion key hs, examine_empty]

namespace Engine

variable {δ σ : Type}

/-- What a flag comes to: what its supplier's bindings come to. A flag without a handler or without
a supplier passes, and nothing goes on record. -/
def ruling (e : Engine δ σ) (c : Context) (key : FlagKey) : Except HandlerError Ruling :=
  match e.registry key, e.index.supplier? c.region key with
  | some entry, some s => entry.ruling c ((s.bindingsOf key).filter entry.takes)
  | _, _ => .ok ⟨.pass, none⟩

/-- What is kept for a region, if anything, are the bindings that bear on it. -/
def Fresh (e : Engine δ σ) (r : Region) : Prop :=
  ∀ graph, e.cache.get? r.id = some graph → graph = e.index.bindings r

/-- The bindings that are found for a region are right just if what is kept for it is. -/
theorem bindingsFor_eq_iff {e : Engine δ σ} {r : Region} :
    (e.bindingsFor r).1 = e.index.bindings r ↔ e.Fresh r := by
  rw [bindingsFor, Fresh]
  split
  · rename_i graph hgraph
    simp [hgraph]
  · rename_i hnone
    simp [hnone]

/-- Asking for bindings changes nothing but what is kept. -/
theorem bindingsFor_snd (e : Engine δ σ) (r : Region) :
    ∃ cache, (e.bindingsFor r).2 = { e with cache } := by
  rw [bindingsFor]
  split
  · exact ⟨e.cache, rfl⟩
  · exact ⟨_, rfl⟩

section Handled

variable {e : Engine δ σ} {key : FlagKey} {entry : HandlerEntry}

/-- Looking at a flag lets the bindings rule that are found for the region. -/
theorem evaluate_fst (hentry : e.registry key = some entry) (c : Context) :
    (e.evaluate c key).1 =
      ((e.bindingsFor c.region).1.evaluate entry c key).map Ruling.verdict := by
  simp only [evaluate, hentry]
  cases (e.bindingsFor c.region).1.evaluate entry c key <;> rfl

/-- Looking at a flag keeps the bindings that are found for the region. -/
theorem cache_evaluate (hentry : e.registry key = some entry) (c : Context) :
    (e.evaluate c key).2.cache = (e.bindingsFor c.region).2.cache := by
  simp only [evaluate, hentry]
  cases (e.bindingsFor c.region).1.evaluate entry c key with
  | error failure => rfl
  | ok ruling => cases hdecision : ruling.decision <;> simp only [hdecision] <;> rfl

end Handled

/-- Looking at a flag that has a handler: the graph that bears on the region rules. -/
theorem evaluate_of_fresh {e : Engine δ σ} {c : Context} (hfresh : e.Fresh c.region)
    {key : FlagKey} {entry : HandlerEntry} (hentry : e.registry key = some entry) :
    ∃ cache, e.evaluate c key =
      match (e.index.bindings c.region).evaluate entry c key with
      | .error failure => (.error failure, { e with cache })
      | .ok ruling => (.ok ruling.verdict, { e with cache }.record ruling.decision) := by
  obtain ⟨cache, hcache⟩ := bindingsFor_snd e c.region
  have hgraph : e.bindingsFor c.region = (e.index.bindings c.region, { e with cache }) :=
    Prod.ext (bindingsFor_eq_iff.mpr hfresh) hcache
  refine ⟨cache, ?_⟩
  cases hresult : (e.index.bindings c.region).evaluate entry c key <;>
    simp only [evaluate, hentry, hgraph, hresult]

/-- **Looking at a flag.** Whatever handlers are registered: if what is kept for the region is
right, the verdict is the one that the flag comes to, its decision goes on record, and nothing
else changes but what is kept. -/
theorem evaluate_eq_ruling {e : Engine δ σ} {c : Context} (hindex : e.index.Keyed Region.id)
    (hregion : e.index.get? c.region.id = some c.region) (hfresh : e.Fresh c.region)
    (key : FlagKey) :
    ∃ cache, e.evaluate c key =
      match e.ruling c key with
      | .error failure => (.error failure, { e with cache })
      | .ok ruling => (.ok ruling.verdict, { e with cache }.record ruling.decision) := by
  rw [ruling]
  cases hentry : e.registry key with
  | none =>
    refine ⟨e.cache, ?_⟩
    rw [evaluate, hentry]
    rfl
  | some entry =>
    obtain ⟨cache, hevaluate⟩ := evaluate_of_fresh hfresh hentry
    refine ⟨cache, ?_⟩
    rw [hevaluate, RegionIndex.evaluate_bindings hindex hregion]
    cases e.index.supplier? c.region key <;> rfl

open RegionIndex in
/-- Building in the house is denied by the town's binding, and that goes on record. -/
theorem evaluate_eq_ruling_house :
    let e : Engine Unit Unit := { start () () .standard 1 true with index := townIndex }
    let c : Context := { region := house, action := .unknown }
    e.index.Keyed Region.id ∧ e.index.get? c.region.id = some c.region ∧ e.Fresh c.region ∧
      ∃ b ∈ town.bindingsOf .build, ∃ cache, e.evaluate c .build =
        (.ok (.deny "build.denied"),
          { e with cache }.record (some (c.decision .deny b (some "build.denied")))) := by
  intro e c
  have hfresh : e.Fresh c.region := by
    intro graph hgraph
    cases hgraph
  have hruling : e.ruling c .build =
      .ok ⟨.deny "build.denied", some (c.decision .deny
        ⟨town.id, 0, .ofValue .build (.boolean false)⟩ (some "build.denied"))⟩ := by
    show (match Registry.standard .build, townIndex.supplier? house .build with
      | some entry, some s => entry.ruling c ((s.bindingsOf .build).filter entry.takes)
      | _, _ => .ok ⟨.pass, none⟩) = _
    rw [supplier?_house]
    rfl
  obtain ⟨cache, hevaluate⟩ :=
    evaluate_eq_ruling keyed_townIndex get?_townIndex_house hfresh .build
  rw [hruling] at hevaluate
  exact ⟨keyed_townIndex, get?_townIndex_house, hfresh, _, List.mem_cons_self, cache, hevaluate⟩

end Engine

end RegionPolicy
