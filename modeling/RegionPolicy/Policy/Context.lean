import RegionPolicy.Policy.Action
import RegionPolicy.Policy.Actor
import RegionPolicy.Region.Basic

/-!
# Contexts

What is known when a flag is looked at: in which region, for which action, where, and who takes
part.

## Main definitions

* `Context`, `Context.forRegion`, `Context.canBypass`.
-/

namespace RegionPolicy

/-- Whether an actor is among some people, by id or by name. -/
def Actor.isAmong (a : Actor) (people : SortedSet String) : Bool :=
  people.contains a.id.text || people.contains a.name

/-- Whether an actor owns the region or is a member of it. -/
def Region.belongsTo (r : Region) (a : Actor) : Bool :=
  a.isAmong r.owners || a.isAmong r.members

/-- What is known when a flag is looked at. -/
structure Context where
  /-- The region for which the flag is looked at. -/
  region : Region
  /-- What is being done. -/
  action : FlagAction
  /-- Where it is done. -/
  location : Option Position := none
  /-- Who does it. -/
  actor : Option Actor := none
  /-- What it is done with. -/
  source : Option Entity := none
  /-- What it is done to. -/
  target : Option Entity := none
  /-- Whatever else handlers are to know. -/
  data : SortedMap String Json.Value := ∅

namespace Context

/-- The context with one more thing for handlers to know. -/
def withData (c : Context) (key : String) (value : Json.Value) : Context :=
  { c with data := c.data.insert key value }

/-- The same context for another region. -/
def forRegion (c : Context) (region : Region) : Context := { c with region }

/-- Whether the actor may pass gates of the region: owners and members may, and nobody else. -/
def canBypass (c : Context) : Bool :=
  c.actor.any c.region.belongsTo

end Context

end RegionPolicy
