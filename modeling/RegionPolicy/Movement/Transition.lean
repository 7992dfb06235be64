import RegionPolicy.Movement.Presence
import RegionPolicy.Policy.Verdict
import RegionPolicy.Policy.Context

/-!
# Transitions

A move from one point to another passes two gates: into the region that counts at the
destination, and out of the region that counts at the origin. A gate is a flag, and there are
further flags that say what happens at a gate that opens, and at one that does not.

## Main definitions

* `Gate` with its flags.
* `TransitionRequest`, `TransitionDecision`, `TransitionEffect`.
-/

namespace RegionPolicy

/-- A move that is asked for. -/
structure TransitionRequest where
  /-- Who moves. -/
  actor : Option Actor
  /-- Where the move begins. -/
  origin : Position
  /-- Where it ends. -/
  destination : Position
  /-- What the move is part of. -/
  action : FlagAction

/-- A gate of a region. -/
inductive Gate where
  | entry
  | exit
deriving DecidableEq, Repr

namespace Gate

/-- The flag that closes a gate. -/
def flag : Gate → FlagKey
  | entry => .entry
  | exit => .exit

/-- The flags that are looked at when a gate is closed. -/
def denialFlags : Gate → List FlagKey
  | entry => [.entryDenyMessage, .entryAction]
  | exit => [.exitDenyMessage, .exitAction]

/-- The flags that are looked at when a gate is open. -/
def followUpFlags : Gate → List FlagKey
  | entry => [.entryAction, .messageOnEntry, .teleportOnEntry]
  | exit => [.exitAction, .messageOnExit, .teleportOnExit]

/-- The point of a move at which a gate stands. -/
def position : Gate → TransitionRequest → Position
  | entry, request => request.destination
  | exit, request => request.origin

/-- The context in which the flags of a gate are looked at. -/
def context (gate : Gate) (request : TransitionRequest) (region : Region) : Context where
  region
  action := request.action
  location := some (gate.position request)
  actor := request.actor

end Gate

/-- Something to be done on account of a move. -/
structure TransitionEffect where
  /-- The region that asks for it. -/
  region : RegionId
  /-- The flag that asks for it. -/
  flag : FlagKey
  /-- What is to be done. -/
  metadata : Metadata

/-- The written form of an effect. -/
def TransitionEffect.toJson (e : TransitionEffect) : Json.Value :=
  .object
    [("flag", .text e.flag.id), ("metadata", metadataJson e.metadata),
      ("region_id", .text e.region.text)]

/-- The effects of a verdict. -/
def Verdict.effects (region : RegionId) (flag : FlagKey) : Verdict → List TransitionEffect
  | modify metadata => [⟨region, flag, metadata⟩]
  | _ => []

/-- What comes of a move that was asked for. -/
inductive TransitionDecision where
  | allowed (entered exited : Option RegionId) (effects : List TransitionEffect)
      (presence : PresenceChange)
  | blocked (region : RegionId) (flag : FlagKey) (reason : Option String)
      (effects : List TransitionEffect)

namespace TransitionDecision

/-- Whether the move is blocked. -/
def isBlocked : TransitionDecision → Bool
  | blocked .. => true
  | allowed .. => false

/-- What is to be done on account of the move. -/
def effects : TransitionDecision → List TransitionEffect
  | allowed _ _ effects _ => effects
  | blocked _ _ _ effects => effects

/-- The written form of a decision. -/
def toJson : TransitionDecision → Json.Value
  | allowed entered exited effects presence =>
    .object
      [("decision", .text "allowed"), ("effects", .ofList TransitionEffect.toJson effects),
        ("entered", .ofOption (fun id => .text id.text) entered),
        ("exited", .ofOption (fun id => .text id.text) exited), ("presence", presence.toJson)]
  | blocked region flag reason effects =>
    .object
      [("decision", .text "blocked"), ("effects", .ofList TransitionEffect.toJson effects),
        ("flag", .text flag.id), ("reason", .ofOption .text reason),
        ("region", .text region.text)]

end TransitionDecision

end RegionPolicy
