import RegionPolicy.Text.Blank

/-!
# Configuration

The engine is configured by variables, each of which has a default. A variable that cannot be
understood counts as missing.

## Main definitions

* `Config`, `Config.ofLookup`.
-/

namespace RegionPolicy

/-- The configuration of the engine. -/
structure Config where
  /-- The file of the definitions. -/
  definitionsPath : String := "regions.json"
  /-- The directory of the stored geometry. -/
  artifactDir : String := "artifacts"
  /-- How many items feeds keep, at least. -/
  eventBuffer : Nat := 64
  /-- What is logged. -/
  logFilter : String := "regionward_engine=info"
deriving DecidableEq, Repr

namespace Config

/-- The greatest number of items that feeds can be asked to keep. -/
def maxEventBuffer : Nat := 4096

/-- The number of a text of decimal digits. -/
def decimal? (cs : List Char) : Option Nat :=
  if cs.isEmpty || !cs.all Char.isDigit then none
  else some (cs.foldl (fun n c => 10 * n + (c.toNat - '0'.toNat)) 0)

/-- The size of a buffer: digits, perhaps with blanks around and a plus sign in front, from 1 up to
the greatest number. -/
def eventBuffer? (s : String) : Option Nat :=
  let digits := match (Text.trim s).toList with
    | '+' :: rest => rest
    | cs => cs
  (decimal? digits).filter fun n => 1 ≤ n && n ≤ maxEventBuffer

/-- The value of a variable, if it is not blank. -/
def present (value : Option String) : Option String :=
  value.filter fun s => !Text.isBlank s

/-- The configuration of some variables. -/
def ofLookup (lookup : String → Option String) : Config where
  definitionsPath :=
    ((present (lookup "REGIONWARD_DEFINITIONS")).map Text.trim).getD "regions.json"
  artifactDir := ((present (lookup "REGIONWARD_ARTIFACT_DIR")).map Text.trim).getD "artifacts"
  eventBuffer := ((lookup "REGIONWARD_EVENT_BUFFER").bind eventBuffer?).getD 64
  logFilter := (present (lookup "RUST_LOG")).getD "regionward_engine=info"

end Config

end RegionPolicy
