import RegionPolicy.Config
import RegionPolicy.Query
import RegionPolicy.Store.Disk

/-!
# The program

Loads the regions, then answers queries, a line each, until the input ends. Before a line is
answered the files are read, and afterwards those that have changed are written.

## Main definitions

* `main`.
-/

namespace RegionPolicy

/-- A file of the disk, if it exists. -/
def readDiskFile (path : String) : IO (Option DiskFile) := do
  try
    return some (.text (← IO.FS.readFile path))
  catch
    | .noFileOrDirectory .. => return none
    | .inappropriateType _ 21 _ => return some .directory
    | e => return some (.unreadable (toString e))

/-- The place of a file in a directory. -/
def inDirectory (directory name : String) : String := directory ++ "/" ++ name

/-- Reads the files of some artifacts. -/
def readArtifactFiles (directory : String) (ids : List ArtifactId) : IO DiskStore := do
  let mut files : SortedMap String DiskFile := ∅
  for id in ids do
    let name := fileName id
    if let some file ← readDiskFile (inDirectory directory name) then
      files := files.insert name file
  return .present files

/-- Writes the files that have changed. A file that cannot be written stays as it is. -/
def writeArtifactFiles (directory : String) (before after : DiskStore) : IO Unit := do
  for (name, file) in after.files.entries do
    if before.files.get? name != some file then
      if let .text content := file then
        try
          IO.FS.createDirAll directory
          IO.FS.writeFile (inDirectory directory name) content
        catch _ => pure ()

/-- An engine that works on files. -/
abbrev DiskEngine := Engine DiskSource DiskStore

/-- Runs a step of the engine on the files as they are now, and writes what it changed. -/
def onFiles {α : Type} (config : Config) (e : DiskEngine) (step : DiskEngine → α × DiskEngine) :
    IO (α × DiskEngine) := do
  let source : DiskSource := ⟨← readDiskFile config.definitionsPath⟩
  let store ← readArtifactFiles config.artifactDir source.artifactIds
  let (a, e) := step { e with source, store }
  writeArtifactFiles config.artifactDir store e.store
  return (a, e.drainFeeds)

/-- Answers the lines of the input, blank ones aside. -/
partial def serve (config : Config) (e : DiskEngine) (input output : IO.FS.Stream) : IO Unit := do
  let line ← input.getLine
  unless line.isEmpty do
    if Text.isBlank line then serve config e input output
    else
      let (response, e) ← onFiles config e (·.respond line)
      output.putStrLn response
      output.flush
      serve config e input output

/-- The configuration of the environment. -/
def readConfig : IO Config := do
  let names := ["REGIONWARD_DEFINITIONS", "REGIONWARD_ARTIFACT_DIR", "REGIONWARD_EVENT_BUFFER",
    "RUST_LOG"]
  let values ← names.mapM fun name => return (name, ← IO.getEnv name)
  return .ofLookup fun name => (values.lookup name).join

end RegionPolicy

open RegionPolicy in
/-- Loads the regions and answers queries. Gives up if the regions cannot be loaded. -/
def main : IO UInt32 := do
  let config ← readConfig
  let e : DiskEngine := .start {} .absent .standard config.eventBuffer false
  let (loaded, e) ← onFiles config e (·.reload)
  match loaded with
  | .error failure =>
    (← IO.getStderr).putStrLn ("Error: " ++ failure.message)
    return 1
  | .ok _ =>
    serve config e (← IO.getStdin) (← IO.getStdout)
    return 0
