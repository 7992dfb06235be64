import RegionPolicy.Json.Decode
import RegionPolicy.Text.Blank

/-!
# Actions

What is being done when a flag is looked at, named as `source:action`.

## Main definitions

* `FlagAction`, `FlagAction.ofText`, `FlagAction.unknown`.
-/

namespace RegionPolicy

/-- The name of an action. -/
structure FlagAction where
  /-- The name as it was written. -/
  id : String
deriving DecidableEq, Repr, Inhabited

namespace FlagAction

/-- The action of which nothing is known. -/
def unknown : FlagAction := ⟨"internal:unknown"⟩

/-- The action of a name. It must not be blank, and needs a colon. -/
def ofText (id : String) : Except DomainError FlagAction :=
  if Text.isBlank id then .error .blankAction
  else if id.toList.contains ':' then .ok ⟨id⟩
  else .error (.actionWithoutNamespace id)

/-- Reads an action by its name. -/
def decode : Json.Decoder FlagAction := fun d =>
  match Json.Decoder.text d with
  | .error e => .error e
  | .ok s => (ofText s).mapError Json.DecodeError.domain

end FlagAction

end RegionPolicy
