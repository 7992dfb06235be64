import RegionPolicy.Collection.SortedMap
import RegionPolicy.Flag.Binding
import RegionPolicy.Policy.Actor
import RegionPolicy.Region.Id

/-!
# Verdicts

What comes of looking at a flag: allowed, denied, something to be done, or nothing. Verdicts that
allow or deny are put on record.

## Main definitions

* `Verdict`, `Metadata`.
* `ResolvedBinding` — a binding with the region that supplied it.
* `Decision` — a verdict on record.
-/

namespace RegionPolicy

/-- What a handler wants to be done, by name. -/
abbrev Metadata := SortedMap String Json.Value

/-- The written form of metadata. -/
def metadataJson (m : Metadata) : Json.Value := .object m.entries

/-- What comes of looking at a flag. -/
inductive Verdict where
  | allow
  /-- The flag has nothing to say. -/
  | pass
  | denied (reason : Option String)
  /-- Something is to be done. -/
  | modify (metadata : Metadata)

namespace Verdict

/-- A denial for a reason. -/
def deny (reason : String) : Verdict := denied (some reason)

/-- A single thing to be done. -/
def modifyOne (key : String) (value : Json.Value) : Verdict :=
  modify ((∅ : Metadata).insert key value)

/-- Whether the verdict is a denial. -/
def isDenied : Verdict → Bool
  | denied _ => true
  | _ => false

/-- What is to be done. -/
def metadata? : Verdict → Option Metadata
  | modify metadata => some metadata
  | _ => none

/-- The written form of a verdict. -/
def toJson : Verdict → Json.Value
  | allow => .object [("outcome", .text "allow")]
  | pass => .object [("outcome", .text "pass")]
  | denied reason => .object [("outcome", .text "denied"), ("reason", .ofOption .text reason)]
  | modify metadata =>
    .object [("metadata", metadataJson metadata), ("outcome", .text "modify")]

end Verdict

/-- A binding with the region that supplied it. -/
structure ResolvedBinding where
  /-- The region in whose definition the binding is. -/
  region : RegionId
  /-- The priority of that region. -/
  priority : Int32
  /-- The binding. -/
  binding : FlagBinding
deriving DecidableEq

/-- The kinds of verdicts that are put on record. -/
inductive DecisionKind where
  | allow
  | deny
deriving DecidableEq, Repr

/-- The name of a kind of decision. -/
def DecisionKind.name : DecisionKind → String
  | allow => "allow"
  | deny => "deny"

/-- A verdict on record. -/
structure Decision where
  /-- Whether it allows or denies. -/
  kind : DecisionKind
  /-- The region for which the flag was looked at. -/
  region : RegionId
  /-- The binding that decided. -/
  binding : ResolvedBinding
  /-- What was being done. -/
  action : String
  /-- Who did it. -/
  actor : Option ActorId
  /-- Why it was denied. -/
  reason : Option String
deriving DecidableEq

/-- The written form of a decision that was made at some time. -/
def Decision.toJson (time : String) (d : Decision) : Json.Value :=
  .object
    [("kind", .text d.kind.name), ("region_id", .text d.region.text),
      ("flag", .text d.binding.binding.key.id),
      ("source_region_id", .text d.binding.region.text), ("value", d.binding.binding.value.toJson),
      ("priority", .ofInt d.binding.priority.toInt), ("action", .text d.action),
      ("actor_id", .ofOption (fun id => .text id.text) d.actor),
      ("reason", .ofOption .text d.reason), ("occurred_at", .text time)]

end RegionPolicy
