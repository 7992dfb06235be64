import RegionPolicy.Engine.State
import RegionPolicy.Movement.Transition

/-!
# Deciding on moves

A move within one region, or outside of all, is always allowed. Any other has to pass the gate
into the region at its destination, and then the gate out of the region at its origin. Owners and
members of a region pass its gates as they like; what is to be done at a gate holds for them too.

## Main definitions

* `Engine.collect` — the effects of some flags.
* `Engine.passGate` — what comes of a gate.
* `Engine.transition` — what comes of a move.
-/

namespace RegionPolicy

/-- What comes of a gate. -/
inductive Passage where
  | opened (effects : List TransitionEffect)
  | closed (region : RegionId) (flag : FlagKey) (reason : Option String)
      (effects : List TransitionEffect)

namespace Engine

variable {δ σ : Type}

/-- The effects of some flags, looked at one after the other. -/
def collect (e : Engine δ σ) (c : Context) :
    List FlagKey → Except HandlerError (List TransitionEffect) × Engine δ σ
  | [] => (.ok [], e)
  | key :: rest =>
    match e.evaluate c key with
    | (.error failure, e) => (.error failure, e)
    | (.ok verdict, e) =>
      match e.collect c rest with
      | (.error failure, e) => (.error failure, e)
      | (.ok effects, e) => (.ok (verdict.effects c.region.id key ++ effects), e)

/-- The verdict on a gate; whoever may pass it anyway is not held up. -/
def judgeGate (e : Engine δ σ) (c : Context) (gate : Gate) :
    Except HandlerError Verdict × Engine δ σ :=
  if c.canBypass then (.ok .allow, e) else e.evaluate c gate.flag

/-- What comes of a gate of a region; where there is no region the way is open. -/
def passGate (e : Engine δ σ) (request : TransitionRequest) (gate : Gate) :
    Option Region → Except HandlerError Passage × Engine δ σ
  | none => (.ok (.opened []), e)
  | some region =>
    let c := gate.context request region
    match e.judgeGate c gate with
    | (.error failure, e) => (.error failure, e)
    | (.ok (.denied reason), e) =>
      match e.collect c gate.denialFlags with
      | (.error failure, e) => (.error failure, e)
      | (.ok effects, e) => (.ok (.closed region.id gate.flag reason effects), e)
    | (.ok verdict, e) =>
      match e.collect c gate.followUpFlags with
      | (.error failure, e) => (.error failure, e)
      | (.ok effects, e) => (.ok (.opened (verdict.effects region.id gate.flag ++ effects)), e)

/-- Allows a move, and puts the actor into the regions at its destination. -/
def allow (e : Engine δ σ) (request : TransitionRequest) (entered exited : Option RegionId)
    (effects : List TransitionEffect) : TransitionDecision × Engine δ σ :=
  match request.actor with
  | none => (.allowed entered exited effects {}, e)
  | some actor =>
    let here := (e.index.regionsAt request.destination).map Region.id
    let (change, presence) := e.presence.update actor.id here
    (.allowed entered exited effects change, { e with presence })

/-- What comes of a move. -/
def transition (e : Engine δ σ) (request : TransitionRequest) :
    Except HandlerError TransitionDecision × Engine δ σ :=
  let previous := e.index.dominantAt request.origin
  let next := e.index.dominantAt request.destination
  if previous.map Region.id = next.map Region.id then
    let (decision, e) := e.allow request none none []
    (.ok decision, e)
  else
    match e.passGate request .entry next with
    | (.error failure, e) => (.error failure, e)
    | (.ok (.closed region flag reason effects), e) =>
      (.ok (.blocked region flag reason effects), e)
    | (.ok (.opened entering), e) =>
      match e.passGate request .exit previous with
      | (.error failure, e) => (.error failure, e)
      | (.ok (.closed region flag reason effects), e) =>
        (.ok (.blocked region flag reason effects), e)
      | (.ok (.opened leaving), e) =>
        let (decision, e) :=
          e.allow request (next.map Region.id) (previous.map Region.id) (entering ++ leaving)
        (.ok decision, e)

end Engine

/-- The report of a move on which no decision was reached. -/
def HandlerError.transitionMessage (e : HandlerError) : String :=
  "Flag evaluation failed: " ++ e.message

end RegionPolicy
