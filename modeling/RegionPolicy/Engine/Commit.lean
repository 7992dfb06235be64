import RegionPolicy.Engine.State
import RegionPolicy.Store.Geometry

/-!
# Loading and committing

The regions in force are loaded as a whole, from the definitions and the stored geometry. Between
two loads only shapes change: a new shape is stored first, and takes effect if that succeeds. An
operation that fails changes no region.

## Main definitions

* `Engine.reload` — loads the regions anew.
* `Engine.commitRegion` — a new shape for one region.
* `Engine.commitArtifact` — a new shape for all regions of an artifact.
-/

namespace RegionPolicy

namespace Engine

variable {δ σ : Type} [ArtifactStore σ]

/-! ### Loading -/

/-- The drafts of some definitions, with the shapes that they start with. Definitions with blank
ids are passed over. -/
def draftsOf (s : σ) : List RegionDefinition → List Draft × σ
  | [] => ([], s)
  | d :: rest =>
    if d.id.isBlank then draftsOf s rest
    else
      let (shape, s) := ArtifactStore.resolveShape s d.artifact
      let (drafts, s) := draftsOf s rest
      (⟨d, shape⟩ :: drafts, s)

/-- Loads the regions anew, and forgets all that was known about their flags. Gives the number of
regions. -/
def reload [DefinitionSource δ] (e : Engine δ σ) : Except StoreError Nat × Engine δ σ :=
  match DefinitionSource.load e.source with
  | .error failure => (.error failure, e)
  | .ok definitions =>
    let (drafts, store) := draftsOf e.store definitions
    let index := arrange drafts
    (.ok index.size, { e with store, index }.invalidateAll)

/-! ### Committing -/

/-- The nodes to be stored for a shape: those given, or else its own. -/
def nodesFor (nodes : List Position) (shape : Shape) : List Position :=
  if nodes.isEmpty then shape.nodes else nodes

/-- Stores a new shape for a region, if its definition names an artifact, and puts it into force.
The mode is the one given, or else that of the shape. -/
def commitRegion (e : Engine δ σ) (definition : RegionDefinition) (shape : Shape)
    (nodes : List Position) (mode : Option SelectionMode) : Except StoreError Unit × Engine δ σ :=
  let (saved, store) : Except StoreError Unit × σ :=
    match definition.artifact with
    | some a =>
      ArtifactStore.saveGeometry e.store a (mode.getD (.ofShape shape)) (nodesFor nodes shape)
    | none => (.ok (), e.store)
  match saved with
  | .error failure => (.error failure, { e with store })
  | .ok () =>
    let index := e.index.replaceShape definition shape
    (.ok (), { e with store, index }.invalidate definition.id)

/-- Stores a new shape for an artifact and puts it into force for all its regions. The mode is the
one given, or that stored so far, or else that of the shape. Gives the number of regions. -/
def commitArtifact (e : Engine δ σ) (a : Artifact) (shape : Shape) (nodes : List Position)
    (mode : Option SelectionMode) : Except StoreError Nat × Engine δ σ :=
  let mode := mode.getD <|
    match ArtifactStore.loadGeometry e.store a with
    | some stored => stored.mode
    | none => .ofShape shape
  let (saved, store) := ArtifactStore.saveGeometry e.store a mode (nodesFor nodes shape)
  match saved with
  | .error failure => (.error failure, { e with store })
  | .ok () =>
    let users := e.index.usersOf a.id
    let index := e.index.replaceShapes a.id shape
    (.ok users.length, users.foldl invalidate { e with store, index })

end Engine

end RegionPolicy
