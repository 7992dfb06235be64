import RegionPolicy.Text.Blank
import RegionPolicy.Text.Lowercase

/-!
# World names

A list of world names, as someone wrote it, may hold blanks and spellings that differ in case
only. What counts is the list of its different names.

## Main definitions

* `dedupeNames` — trimmed, non-empty names that differ under a key, in the order of their first
  occurrence and in their first spelling.
* `dedupeWorlds` — that list under the lower case of the names.
-/

namespace RegionPolicy

/-- The names whose keys are not among `seen`, each key once, trimmed and without the empty. -/
def dedupeNamesFrom (key : String → String) (seen : List String) : List String → List String
  | [] => []
  | name :: rest =>
    let trimmed := Text.trim name
    if trimmed = "" ∨ key trimmed ∈ seen then dedupeNamesFrom key seen rest
    else trimmed :: dedupeNamesFrom key (key trimmed :: seen) rest

/-- The trimmed, non-empty names, the first of each key. -/
def dedupeNames (key : String → String) (names : List String) : List String :=
  dedupeNamesFrom key [] names

/-- The different worlds of a list. -/
def dedupeWorlds (worlds : List String) : List String :=
  dedupeNames Text.lowercase worlds

end RegionPolicy
