import ClojureBuild.Build

/-!
# Programs on the search path

A program is looked up by name in the directories of the search path, or taken as it is when its
name has a slash.  Three programs are known: one that succeeds and one that fails, both silently,
and one that prints its arguments.
-/

namespace ClojureBuild.Runner

/-- What a known program leaves behind. -/
def knownOutput? (location : Location) (arguments : List ByteText) : Option CommandOutput :=
  if location = ["bin", "true"] then some .silentSuccess
  else if location = ["bin", "false"] then some ⟨some 1, "", ""⟩
  else if location = ["bin", "echo"] then 
    some ⟨some 0, Text.decodeLossy (Text.joinWith " " arguments) ++ "\n", ""⟩
  else none

/-- Whether some permission to execute is set. -/
def isExecutable (mode : Nat) : Bool :=
  mode.land 0o111 ≠ 0

/-- Start the program that a path leads to. -/
def start (workspace : Workspace) (arguments : List ByteText) (program : Path) :
    Except SystemFailure CommandOutput :=
  match workspace.status program with
  | .error failure => .error failure
  | .ok (location, .file _ _ mode) =>
      if !isExecutable mode then .error .permissionDenied
      else
        match knownOutput? location arguments with
        | some output => .ok output
        | none => .error .execFormat
  | .ok _ => .error .permissionDenied

/-- Try to start a program from each directory in turn.  One that may not be executed is passed
over, but remembered as the reason if no other one is found. -/
def search (workspace : Workspace) (command : Command) (reason : SystemFailure) :
    List Path → Except SystemFailure CommandOutput
  | [] => .error reason
  | directory :: rest =>
      match start workspace command.arguments (directory.join ⟨command.program⟩) with
      | .error .notFound => search workspace command reason rest
      | .error .notDirectory => search workspace command reason rest
      | .error .permissionDenied => search workspace command .permissionDenied rest
      | outcome => outcome

/-- A runner that looks programs up in the given directories. -/
def onSearchPath (directories : List Path) : Runner where
  run := fun _ command workspace =>
    let outcome :=
      if command.program.toList.contains '/' then
        start workspace command.arguments ⟨command.program⟩
      else if command.program = "" then .error .notFound
      else search workspace command .notFound directories
    (outcome.mapError SystemFailure.message, workspace)

end ClojureBuild.Runner
