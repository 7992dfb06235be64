import RegionPolicy.Json.Decode
import RegionPolicy.Region.Definition

/-!
# Stores

Where definitions come from and where geometry is kept. A store may fail, and then it says at
which operation.

## Main definitions

* `StoreError`, `StoreError.message`.
* `DefinitionSource` — something that definitions are loaded from.
* `ArtifactStore` — something that keeps one text for each artifact.
-/

namespace RegionPolicy

/-- What a store does. -/
inductive StoreOperation where
  | loadDefinitions
  | readArtifact
  | writeArtifact
deriving DecidableEq, Repr

/-- The name by which an operation is reported. -/
def StoreOperation.name : StoreOperation → String
  | loadDefinitions => "load_definitions"
  | readArtifact => "read_artifact"
  | writeArtifact => "write_artifact"

/-- Why a store failed. -/
inductive StoreError where
  /-- The store itself failed, for some reason. -/
  | storage (operation : StoreOperation) (reason : String)
  /-- What it holds cannot be read. -/
  | malformed (cause : Json.DecodeError)
deriving DecidableEq, Repr

/-- The report of a store's failure. -/
def StoreError.message : StoreError → String
  | storage operation reason => "Storage error in " ++ operation.name ++ ": " ++ reason
  | malformed cause =>
    match cause.message? with
    | some detail => "Serialization error: " ++ detail
    | none => "Serialization error"

/-- Something that definitions are loaded from. -/
class DefinitionSource (δ : Type) where
  /-- The definitions, in their order. -/
  load : δ → Except StoreError (List RegionDefinition)

/-- Something that keeps one text for each artifact. -/
class ArtifactStore (σ : Type) where
  /-- The text of an artifact, if one was ever written. -/
  read : σ → ArtifactId → Except StoreError (Option String)
  /-- Writes the text of an artifact. The store that is left behind may have changed even if the
  text was not written. -/
  write : σ → ArtifactId → String → Except StoreError Unit × σ

end RegionPolicy
