import RegionPolicy.Payload.World
import RegionPolicy.Store.Basic

/-!
# Geometry in a store

The geometry of an artifact is kept as one text. Texts that cannot be read, or that hold no
geometry, count as nothing stored, so that one broken artifact does not keep the other regions
from loading. A text that holds no geometry stays as it is. What is replaced is a text that is blank
or cannot be read at that moment, and that of a world-wide artifact if it has drifted from the
settings.

## Main definitions

* `ArtifactStore.loadGeometry`, `ArtifactStore.saveGeometry`.
* `ArtifactStore.prepare` — gives an empty artifact a text to start with, and a world-wide one
  a text that agrees with its settings.
* `ArtifactStore.resolveShape` — the shape with which a region starts.
-/

namespace RegionPolicy

namespace ArtifactStore

variable {σ : Type} [ArtifactStore σ]

/-- The text of an artifact, if there is one that can be read. -/
def text? (s : σ) (a : Artifact) : Option String :=
  match read s a.id with
  | .ok data => data
  | .error _ => none

/-- The geometry that a text holds for an artifact. -/
def geometryOf (a : Artifact) (data : String) : Option StoredGeometry :=
  if Text.isBlank data then none
  else
    match a.global with
    | some settings => some (.parseWorld data settings)
    | none => (StoredGeometry.parse data).toOption

/-- The stored geometry of an artifact, if there is any. -/
def loadGeometry (s : σ) (a : Artifact) : Option StoredGeometry :=
  (text? s a).bind (geometryOf a)

/-- The text that is written for an artifact: its settings if it is world-wide, else a
selection. -/
def payloadText (a : Artifact) (mode : SelectionMode) (nodes : List Position) : String :=
  match a.global with
  | some settings => (WorldPayload.ofSettings settings).toJson.render
  | none => (SelectionPayload.ofSelection mode nodes).toJson.render

/-- Stores geometry for an artifact. -/
def saveGeometry (s : σ) (a : Artifact) (mode : SelectionMode) (nodes : List Position) :
    Except StoreError Unit × σ :=
  write s a.id (payloadText a mode nodes)

/-- Whether a text needs to be replaced before an artifact can be used: if it is blank, and if it
has drifted from the settings of a world-wide artifact. -/
def isStale (a : Artifact) (data : String) : Bool :=
  Text.isBlank data ||
    match a.global with
    | some settings => !settings.agreesWith (StoredGeometry.parseWorld data settings).shape
    | none => false

/-- Replaces a stale text. That this may fail is passed over. -/
def prepare (s : σ) (a : Artifact) : σ :=
  if isStale a ((text? s a).getD "") then (saveGeometry s a .cuboid []).2 else s

/-- The shape of stored geometry, or of the settings, or none to speak of. -/
def shapeOr (a : Artifact) : Option StoredGeometry → Shape
  | some stored => stored.shape
  | none =>
    match a.global with
    | some settings => settings.toShape
    | none => .empty

/-- The shape with which a region starts whose geometry is stored under an artifact. -/
def resolveShape (s : σ) : Option Artifact → Shape × σ
  | none => (.empty, s)
  | some a =>
    let s := prepare s a
    (shapeOr a (loadGeometry s a), s)

end ArtifactStore

end RegionPolicy
