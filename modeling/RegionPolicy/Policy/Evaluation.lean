import RegionPolicy.Policy.Graph
import RegionPolicy.Policy.Handler

/-!
# Evaluation

A flag is looked at for a region by showing the bindings that count, one by one, to the handler
of the flag. The first denial ends it; otherwise everything that handlers want to be done is put
together, and if that is nothing, it is enough that one binding allows.

## Main definitions

* `Findings` — what has come of the bindings shown so far.
* `examine` — shows bindings to a handler.
* `BindingGraph.evaluate` — the verdict on a flag, with the decision that is put on record.
-/

namespace RegionPolicy

/-- What has come of the bindings shown so far. -/
structure Findings where
  /-- What is to be done; of two things of one name the later counts. -/
  metadata : Metadata := ∅
  /-- The last binding that allowed. -/
  allowedBy : Option ResolvedBinding := none

/-- A verdict, with what goes on record about it. -/
structure Ruling where
  /-- The verdict. -/
  verdict : Verdict
  /-- The decision on record. Only what allows or denies is recorded. -/
  decision : Option Decision := none

/-- The record of a verdict that a binding led to. -/
def Context.decision (c : Context) (kind : DecisionKind) (b : ResolvedBinding)
    (reason : Option String) : Decision :=
  ⟨kind, c.region.id, b, c.action.id, c.actor.map (·.id), reason⟩

/-- Two collections of things to be done; of two things of one name the later counts. -/
def mergeMetadata (earlier later : Metadata) : Metadata :=
  later.entries.foldl (fun m e => m.insert e.1 e.2) earlier

/-- The ruling when all bindings were shown and none denied. -/
def Findings.ruling (f : Findings) (c : Context) : Ruling :=
  if f.metadata.isEmpty then
    match f.allowedBy with
    | some b => ⟨.allow, some (c.decision .allow b none)⟩
    | none => ⟨.pass, none⟩
  else ⟨.modify f.metadata, none⟩

/-- Shows bindings to a handler, one by one, and rules. Bindings of a kind that the handler does
not take are passed over. -/
def examine (entry : HandlerEntry) (c : Context) :
    Findings → List ResolvedBinding → Except HandlerError Ruling
  | findings, [] => .ok (findings.ruling c)
  | findings, b :: rest =>
    if b.binding.value.kind = entry.kind then
      match entry.handler c b with
      | .error e => .error e
      | .ok (.denied reason) => .ok ⟨.denied reason, some (c.decision .deny b reason)⟩
      | .ok (.modify metadata) =>
        examine entry c { findings with metadata := mergeMetadata findings.metadata metadata } rest
      | .ok .allow => examine entry c { findings with allowedBy := some b } rest
      | .ok .pass => examine entry c findings rest
    else examine entry c findings rest

/-- Looks at a flag: shows the bindings of the region that counts to the handler. -/
def BindingGraph.evaluate (g : BindingGraph) (entry : HandlerEntry) (c : Context)
    (key : FlagKey) : Except HandlerError Ruling :=
  match g.source key c.region.id with
  | none => .ok ⟨.pass, none⟩
  | some source => examine entry c {} ((g.dispatch key).filter fun b => b.region = source)

end RegionPolicy
