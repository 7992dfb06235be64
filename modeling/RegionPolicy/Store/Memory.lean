import RegionPolicy.Collection.SortedMap
import RegionPolicy.Collection.SortedSet
import RegionPolicy.Store.Basic

/-!
# Stores in memory

Definitions and texts that are kept in memory. Such a store fails when it is told to: the source
as a whole, the texts artifact by artifact. A text that is not written leaves the store as it was.

## Main definitions

* `MemorySource`, `MemorySource.upsert`.
* `MemoryStore`.
-/

namespace RegionPolicy

/-- Definitions in memory. -/
structure MemorySource where
  /-- The definitions, in their order. -/
  definitions : List RegionDefinition := []
  /-- Why the source fails, if it does. -/
  failure : Option String := none

namespace MemorySource

instance : DefinitionSource MemorySource where
  load s :=
    match s.failure with
    | some reason => .error (.storage .loadDefinitions reason)
    | none => .ok s.definitions

/-- Puts a definition in the place of the first one with the same id, or else at the end. -/
def upsertInto (d : RegionDefinition) : List RegionDefinition → List RegionDefinition
  | [] => [d]
  | e :: rest => if e.id = d.id then d :: rest else e :: upsertInto d rest

/-- The source with one definition new. -/
def upsert (s : MemorySource) (d : RegionDefinition) : MemorySource :=
  { s with definitions := upsertInto d s.definitions }

/-- The source with other definitions. -/
def replace (s : MemorySource) (definitions : List RegionDefinition) : MemorySource :=
  { s with definitions }

end MemorySource

/-- Texts in memory. -/
structure MemoryStore where
  /-- The texts. -/
  blobs : SortedMap ArtifactId String := ∅
  /-- The artifacts whose texts cannot be read. -/
  unreadable : SortedSet ArtifactId := ∅
  /-- The artifacts whose texts cannot be written. -/
  unwritable : SortedSet ArtifactId := ∅

namespace MemoryStore

instance : ArtifactStore MemoryStore where
  read s id :=
    if s.unreadable.contains id then .error (.storage .readArtifact "unreadable")
    else .ok (s.blobs.get? id)
  write s id data :=
    if s.unwritable.contains id then (.error (.storage .writeArtifact "disk full"), s)
    else (.ok (), { s with blobs := s.blobs.insert id data })

/-- The store with a text put there directly, whether it can be written or not. -/
def put (s : MemoryStore) (id : ArtifactId) (data : String) : MemoryStore :=
  { s with blobs := s.blobs.insert id data }

end MemoryStore

end RegionPolicy
