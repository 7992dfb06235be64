import RegionPolicy.Collection.SortedMap
import RegionPolicy.Store.Basic

/-!
# Stores on disk

Definitions are kept in one file, texts in a directory with one file for each artifact. What is
modelled is what the files look like and when an operation on them fails; touching the disk is
left to whoever runs the program.

A file is named after its artifact, and characters that do not suit a file name give way to an
underscore. So two artifacts can share a file.

There may be directories in the place of files. They are neither read nor written.

## Main definitions

* `DiskFile`, `DiskSource`, `DiskStore`.
* `fileName` — the name of an artifact's file.
-/

namespace RegionPolicy

/-- What is found under a file name. -/
inductive DiskFile where
  | text (content : String)
  /-- Something that cannot be read as text. -/
  | unreadable (reason : String)
deriving DecidableEq, Repr

/-- Why a file system refuses an operation. -/
inductive Refusal where
  | isDirectory
  | notDirectory
  | fileExists
  | nameTooLong
deriving DecidableEq, Repr

/-- The report of a refusal. -/
def Refusal.message : Refusal → String
  | isDirectory => "Is a directory (os error 21)"
  | notDirectory => "Not a directory (os error 20)"
  | fileExists => "File exists (os error 17)"
  | nameTooLong => "File name too long (os error 36)"

/-- A directory in the place of a file. It is known by the report of an attempt to read it, and
cannot be written either. -/
def DiskFile.directory : DiskFile := .unreadable Refusal.isDirectory.message

/-! ### Definitions -/

/-- The file of the definitions, if it exists. -/
structure DiskSource where
  /-- The file. -/
  file : Option DiskFile := none

namespace DiskSource

/-- The document that holds the definitions: a record with the list of them. -/
def document : Json.Fields (List RegionDefinition) :=
  .optional "regions" (Json.Decoder.list RegionDefinition.decode) []

/-- The definitions of a text; a blank one holds none. -/
def parse (content : String) : Except StoreError (List RegionDefinition) :=
  if Text.isBlank content then .ok []
  else (Json.decodeText document.decode content).mapError .malformed

instance : DefinitionSource DiskSource where
  load s :=
    match s.file with
    | none => .ok []
    | some (.text content) => parse content
    | some (.unreadable reason) => .error (.storage .loadDefinitions reason)

/-- The artifacts of the definitions, as far as these can be read. -/
def artifactIds (s : DiskSource) : List ArtifactId :=
  match DefinitionSource.load s with
  | .ok definitions => definitions.filterMap fun d => d.artifact.map (·.id)
  | .error _ => []

end DiskSource

/-! ### Texts -/

/-- What is found at the place of the directory. -/
inductive DiskStore where
  /-- Nothing. -/
  | absent
  /-- A file. -/
  | blocked
  /-- The directory, with its files. -/
  | present (files : SortedMap String DiskFile)

/-- The character that stands for another one in a file name. -/
def fileNameChar (c : Char) : Char :=
  if c.isAlphanum || c = '-' || c = '_' then c else '_'

/-- The name of an artifact's file. -/
def fileName (id : ArtifactId) : String :=
  String.ofList (id.text.toList.map fileNameChar) ++ ".json"

/-- The greatest size of a file name. -/
def maxFileNameSize : Nat := 255

/-- The greatest size of a path. -/
def maxPathSize : Nat := 4095

namespace DiskStore

/-- Whether a file name is longer than a file system takes. -/
def isTooLong (name : String) : Bool := maxFileNameSize < name.utf8ByteSize

/-- The files of the directory. -/
def files : DiskStore → SortedMap String DiskFile
  | present files => files
  | _ => ∅

/-- Whether a file name alone is longer than a path can be. Such a path is refused before anything
is looked up. -/
def isBeyondPaths (name : String) : Bool := maxPathSize < name.utf8ByteSize

/-- Reads a file of the directory. Where there is no directory there is no file, whatever the name,
so long as it can stand in a path at all. -/
def readFile (s : DiskStore) (name : String) : Except StoreError (Option String) :=
  match s with
  | absent =>
    if isBeyondPaths name then .error (.storage .readArtifact Refusal.nameTooLong.message)
    else .ok none
  | blocked => .error (.storage .readArtifact Refusal.notDirectory.message)
  | present files =>
    if isTooLong name then .error (.storage .readArtifact Refusal.nameTooLong.message)
    else
      match files.get? name with
      | none => .ok none
      | some (.text content) => .ok (some content)
      | some (.unreadable reason) => .error (.storage .readArtifact reason)

/-- Why a file cannot be written, if it cannot. -/
def writeRefusal? (s : DiskStore) (name : String) : Option Refusal :=
  match s with
  | blocked => some .fileExists
  | _ =>
    if isTooLong name then some .nameTooLong
    else if s.files.get? name = some .directory then some .isDirectory
    else none

/-- The directory, made if there is none, unless a file is in its place. -/
def withDirectory : DiskStore → DiskStore
  | blocked => blocked
  | s => present s.files

@[simp] theorem files_withDirectory (s : DiskStore) : s.withDirectory.files = s.files := by
  cases s <;> rfl

/-- Writes a file, into a new directory if there is none. -/
def writeFile (s : DiskStore) (name content : String) : Except StoreError Unit × DiskStore :=
  match s.writeRefusal? name with
  | some refusal => (.error (.storage .writeArtifact refusal.message), s.withDirectory)
  | none => (.ok (), present (s.files.insert name (.text content)))

instance : ArtifactStore DiskStore where
  read s id := s.readFile (fileName id)
  write s id data := s.writeFile (fileName id) data

end DiskStore

end RegionPolicy
