/-!
# Errors of the domain

The ways in which a well-formed text fails to name something of the domain, with the wording in
which each is reported.
-/

namespace RegionPolicy

/-- A text that names no flag or no action. -/
inductive DomainError where
  /-- No flag has this id. The text is given as it was compared: trimmed and in lower case. -/
  | unknownFlag (text : String)
  /-- An action id that is blank. -/
  | blankAction
  /-- An action id without a namespace. -/
  | actionWithoutNamespace (id : String)
deriving DecidableEq, Repr

namespace DomainError

/-- The report of an error. -/
def message : DomainError → String
  | unknownFlag text => "Parse error: Unknown flag: " ++ text
  | blankAction => "Validation failed: Flag action identifier must not be blank"
  | actionWithoutNamespace id =>
    "Validation failed: Flag action identifier must contain a namespace (source:action): " ++ id

end DomainError

end RegionPolicy
