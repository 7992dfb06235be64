import RegionPolicy.Policy.Context
import RegionPolicy.Policy.Verdict

/-!
# Handlers

A handler turns a binding into a verdict. It is registered for a flag, and for the kind of values
that it takes; bindings of another kind are not shown to it.

## Main definitions

* `Handler`, `HandlerEntry`, `HandlerError`.
* `Handler.denyWhenFalse`, `Handler.playerActions`, `Handler.message`, `Handler.teleport`.
* `Registry`, `Registry.standard`.
-/

namespace RegionPolicy

/-- A handler that came to no verdict. -/
structure HandlerError where
  /-- The flag that it was looking at. -/
  flag : FlagKey
  /-- What went wrong. -/
  detail : String
deriving DecidableEq, Repr

/-- The report of a handler's failure. -/
def HandlerError.message (e : HandlerError) : String :=
  "handler for " ++ e.flag.id ++ " failed: " ++ e.detail

/-- Turns a binding into a verdict. -/
abbrev Handler := Context → ResolvedBinding → Except HandlerError Verdict

/-- A handler with the kind of values that it takes. -/
structure HandlerEntry where
  /-- The kind of values. -/
  kind : ValueKind
  /-- The handler. -/
  handler : Handler

namespace Handler

/-- Denies if the flag is off. -/
def denyWhenFalse : Handler := fun _ b =>
  match b.binding.value.boolean? with
  | some false => .ok (.deny (b.binding.key.id ++ ".denied"))
  | _ => .ok .pass

/-- Hands out the actions that are not blank, under the name of the region that has them. -/
def playerActions : Handler := fun _ b =>
  match (b.binding.value.actions?.getD []).filter fun action => !Text.isBlank action with
  | [] => .ok .pass
  | actions => .ok (.modifyOne ("actions.player." ++ b.region.text) (.texts actions))

/-- Hands out a message that is not blank. -/
def message : Handler := fun _ b =>
  match b.binding.value.text? with
  | some content =>
    if Text.isBlank content then .ok .pass else .ok (.modifyOne "message" (.text content))
  | none => .ok .pass

/-- Hands out a place to go to. -/
def teleport : Handler := fun _ b =>
  match b.binding.value.location? with
  | some position => .ok (.modifyOne "teleport" position.toJson)
  | none => .ok .pass

end Handler

/-! ### Registries -/

/-- The handlers that are registered. -/
abbrev Registry := FlagKey → Option HandlerEntry

namespace Registry

/-- No handler is registered. -/
def empty : Registry := fun _ => none

/-- The registry with a handler for a flag, in place of any other. -/
def register (r : Registry) (key : FlagKey) (entry : HandlerEntry) : Registry := fun k =>
  if k = key then some entry else r k

/-- The registry without a handler for a flag. -/
def unregister (r : Registry) (key : FlagKey) : Registry := fun k =>
  if k = key then none else r k

/-- Whether a handler is registered for a flag. -/
def has (r : Registry) (key : FlagKey) : Bool := (r key).isSome

/-- The flags that deny when they are off. -/
def denyWhenFalseKeys : List FlagKey :=
  [.build, .blockBreak, .blockPlace, .useBlock, .interact, .itemPickup, .itemDrop, .entry, .exit,
   .mobDamage, .creeperExplosion, .tnt, .fireSpread, .worldedit, .pvp]

/-- The handlers that are there from the start. -/
def standard : Registry := fun key =>
  match key with
  | .entryAction | .exitAction => some ⟨.actions, Handler.playerActions⟩
  | .messageOnEntry | .messageOnExit | .entryDenyMessage | .exitDenyMessage =>
    some ⟨.text, Handler.message⟩
  | .teleportOnEntry | .teleportOnExit => some ⟨.location, Handler.teleport⟩
  | _ => if key ∈ denyWhenFalseKeys then some ⟨.boolean, Handler.denyWhenFalse⟩ else none

end Registry

end RegionPolicy
