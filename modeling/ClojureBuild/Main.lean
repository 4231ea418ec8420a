import ClojureBuild.CommandLine.Run

/-!
# The program

Reads the tree below the current directory and the user's configuration file, runs the command line
on it and writes back what has changed.  Only files that were read here can be seen by a run, and
external commands are not started: a build that needs one stops with the reason.
-/

namespace ClojureBuild.Disk

/-- The permissions that files read here are taken to have. -/
def assumedMode : Nat := 0o644

/-- The instant that a time of the system stands for. -/
def instantOf (time : IO.FS.SystemTime) : Instant :=
  .ofSeconds time.sec time.nsec.toNat

/-- The location of an absolute path. -/
def locationOf (path : Path) : Location :=
  path.body.filter fun name => name ≠ ""

/-- The directories above a location. -/
def above (location : Location) : List (Location × Entry) :=
  (List.range location.length).map fun count => (location.take count, .directory ⟨0⟩)

/-- The file at a location. -/
def readFile (location : Location) : IO (Location × Entry) := do
  let place ← IO.FS.realPath (FileTree.pathOf location).display
  let content ← IO.FS.readBinFile place
  let found ← place.metadata
  return (location, .file content.data.toList (instantOf found.modified) assumedMode)

/-- The entries from a directory on. -/
partial def readBelow (location : Location) : IO (List (Location × Entry)) := do
  let place ← IO.FS.realPath (FileTree.pathOf location).display
  let found ← place.metadata
  let mut entries := [(location, Entry.directory (instantOf found.modified))]
  for held in ← place.readDir do
    let inner := location ++ [Text.encode held.fileName]
    match (← held.path.symlinkMetadata).type with
    | .dir => entries := entries ++ (← readBelow inner)
    | .file => entries := entries ++ [← readFile inner]
    | .symlink =>
        let target ← IO.FS.realPath held.path
        entries := entries ++ [(inner, .link (.ofText target.toString))]
    | .other => pure ()
  return entries

/-- The entries that lead to a file, if it can be read. -/
def readAlone (path : Path) : IO (List (Location × Entry)) := do
  let location := locationOf path
  try
    return above location ++ [← readFile location]
  catch _ =>
    return []

/-- Write an entry that is new or has changed. -/
def writeBack (before : FileTree) (written : Location × Entry) : IO Unit := do
  if before.find? written.1 = some written.2 then
    return ()
  match written.2 with
  | .directory _ => IO.FS.createDirAll (FileTree.pathOf written.1).display
  | .file content _ _ =>
      IO.FS.writeBinFile (FileTree.pathOf written.1).display ⟨content.toArray⟩
  | .link _ => pure ()

/-- The variables of the environment that a run asks for. -/
def variableNames : List String :=
  ["CLOJURE_HOME", "CLJC_JAVA", "CLJC_REPOSITORY", "CLJC_SECONDARY_POLICY", "HOME",
    "XDG_CONFIG_HOME"]

/-- The environment of the program. -/
def readEnvironment : IO Environment :=
  variableNames.filterMapM fun name => do
    return (← IO.getEnv name).map fun value => (name, value)

/-- A runner that starts nothing. -/
def noRunner : Runner where
  run := fun _ _ workspace => (.error SystemFailure.permissionDenied.message, workspace)

/-- The workspace that a run sees. -/
def readWorkspace (environment : Environment) : IO Workspace := do
  let current := locationOf (.ofText (← IO.currentDir).toString)
  let home : Path := .ofText ((environment.lookup "HOME").getD "/")
  let configuration ← readAlone (Config.userFile environment home)
  let clock ← IO.monoNanosNow
  return {
    tree := ⟨above current ++ (← readBelow current) ++ configuration⟩
    current := current
    home := home
    clock := ⟨Instant.perSecond * 2000000000 + clock⟩ }

/-- Write back what a run has changed, directories before what they hold. -/
def writeWorkspace (before after : FileTree) : IO Unit :=
  (sortBy (fun left right => decide (left.1.length ≤ right.1.length)) after.entries).forM
    (writeBack before)

end ClojureBuild.Disk

/-- Run the program on the current directory. -/
def main (arguments : List String) : IO UInt32 := do
  let environment ← ClojureBuild.Disk.readEnvironment
  let workspace ← ClojureBuild.Disk.readWorkspace environment
  let surroundings : ClojureBuild.CommandLine.Surroundings :=
    ⟨environment, ClojureBuild.Disk.noRunner, ClojureBuild.unhindered⟩
  let (output, progress) := ClojureBuild.CommandLine.run surroundings arguments workspace
  ClojureBuild.Disk.writeWorkspace workspace.tree progress.workspace.tree
  (← IO.getStderr).putStr output.standardError
  (← IO.getStdout).putStr output.standardOutput
  return output.code.toUInt32
