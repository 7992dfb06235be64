import RegionPolicy.Collection.SortedSet
import RegionPolicy.Policy.Actor
import RegionPolicy.Region.Index

/-!
# Presence

Which regions each actor is in. An actor who is in no region is not kept.

## Main definitions

* `Presence` with `Presence.regionsOf`, `Presence.update`, `Presence.forget`.
* `PresenceChange` — the regions entered and left by a move.
-/

namespace RegionPolicy

/-- The regions entered and left by a move. -/
structure PresenceChange where
  /-- The regions entered, in ascending order. -/
  entered : List RegionId := []
  /-- The regions left, in ascending order. -/
  exited : List RegionId := []
deriving DecidableEq

namespace PresenceChange

/-- Whether nothing was entered and nothing left. -/
def isEmpty (c : PresenceChange) : Bool := c.entered.isEmpty && c.exited.isEmpty

/-- The written form of a change. -/
def toJson (c : PresenceChange) : Json.Value :=
  .object
    [("entered", .ofList (fun id => .text id.text) c.entered),
      ("exited", .ofList (fun id => .text id.text) c.exited)]

end PresenceChange

/-- Which regions each actor is in. -/
abbrev Presence := SortedMap ActorId (SortedSet RegionId)

namespace Presence

/-- The regions that an actor is in. -/
def regionsOf (p : Presence) (actor : ActorId) : SortedSet RegionId :=
  (p.get? actor).getD ∅

/-- Puts an actor into some regions and out of all others. -/
def update (p : Presence) (actor : ActorId) (regions : List RegionId) :
    PresenceChange × Presence :=
  let current := SortedSet.ofList regions
  let previous := p.regionsOf actor
  (⟨(current.diff previous).toList, (previous.diff current).toList⟩,
    if current.isEmpty then p.erase actor else p.insert actor current)

/-- Forgets an actor, and tells where it was. -/
def forget (p : Presence) (actor : ActorId) : Option (SortedSet RegionId) × Presence :=
  (p.get? actor, p.erase actor)

end Presence

end RegionPolicy
