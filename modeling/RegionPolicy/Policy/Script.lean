import RegionPolicy.Policy.Handler

/-!
# Scripted handlers

Handlers for rehearsals. What such a handler does is told by its name, or by the text of the
binding that it is shown.

## Main definitions

* `Handler.script` — does what the text of the binding says.
* `Handler.report` — hands out what it was shown.
* `Handler.named` — the handler of a name.
-/

namespace RegionPolicy

/-- The parts of a text around the first occurrence of a character. -/
def cutAt (c : Char) (s : String) : Option (String × String) :=
  let cs := s.toList
  match cs.dropWhile (· != c) with
  | [] => none
  | _ :: rest => some (String.ofList (cs.takeWhile (· != c)), String.ofList rest)

namespace Handler

/-- Allows. -/
def allow : Handler := fun _ _ => .ok .allow

/-- Does what the text of the binding says: `deny:` with a reason, `fail:` with a report, `set:`
with a name and a value around an equals sign, or one of `allow`, `deny` and `empty`. Any other
text passes. A binding that has no text is taken as it is shown. -/
def script : Handler := fun _ b =>
  let content := b.binding.value.text?.getD b.binding.value.display
  let whole : Verdict :=
    if content = "allow" then .allow
    else if content = "deny" then .denied none
    else if content = "empty" then .modify ∅
    else .pass
  match cutAt ':' content with
  | some ("deny", reason) => .ok (.deny reason)
  | some ("fail", detail) => .error ⟨b.binding.key, detail⟩
  | some ("set", rest) =>
    match cutAt '=' rest with
    | some (key, value) => .ok (.modifyOne key (.text value))
    | none => .ok (.modifyOne rest (.text ""))
  | _ => .ok whole

/-- Hands out what it was shown. -/
def report (position : Position → Json.Value) : Handler := fun c b =>
  .ok (.modify (.ofList
    [("action", .text c.action.id),
      ("actor", .ofOption (fun a => .text a.name) c.actor),
      ("at", .ofOption position c.location),
      ("region", .text c.region.id.text),
      ("source", .text b.region.text)]))

/-- The handler of a name; every other name stands for a script. -/
def named (position : Position → Json.Value) (name : String) : Handler :=
  if name = "deny_when_false" then denyWhenFalse
  else if name = "player_actions" then playerActions
  else if name = "allow" then allow
  else if name = "context" then report position
  else script

end Handler

end RegionPolicy
