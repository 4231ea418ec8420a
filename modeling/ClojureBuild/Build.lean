import ClojureBuild.Command
import ClojureBuild.Config.Parse
import ClojureBuild.Notice
import ClojureBuild.Repository

/-!
# Builds

A build works on a workspace, runs external commands and may fail.  What it has done so far is kept
also when it fails: the workspace as it is then, every command that was run or tried, and every
notice.
-/

namespace ClojureBuild

/-- Why a secondary compiler stops a build. -/
inductive SecondaryFailure where
  | failed (compiler : String) (output : CommandOutput)
  | notLaunched (compiler : String) (reason : String)
  deriving DecidableEq, Repr

namespace SecondaryFailure

/-- The message about a secondary compiler that stops a build. -/
def message : SecondaryFailure → String
  | .failed compiler output => output.failureMessage (compiler ++ " failed")
  | .notLaunched compiler reason =>
      "could not launch " ++ compiler ++ ": " ++ reason ++ "\n  → Fix: make sure " ++ compiler ++
        " is installed and on PATH"

/-- What lies behind the failure. -/
def causes : SecondaryFailure → List String
  | .failed _ _ => []
  | .notLaunched _ reason => [reason]

end SecondaryFailure

/-- Why a build fails. -/
inductive BuildError where
  | misconfigured (missing : Misconfiguration)
  | duplicateNamespace (duplicate : Namespace) (first second : Path)
  | unresolved (dependency : Unresolved)
  | compileFailed (output : CommandOutput)
  | secondary (failure : SecondaryFailure)
  | invalidNamespace (invalid : InvalidNamespace)
  | sourceRootNotFound (root : Path)
  | invalidConfig (invalid : Config.Invalid)
  | file (failure : FileFailure)
  deriving DecidableEq

namespace BuildError

/-- The message about a build that fails. -/
def message : BuildError → String
  | .misconfigured missing => missing.message
  | .duplicateNamespace duplicate first second =>
      "found duplicate namespace across multiple source dirs: " ++ duplicate.name ++
        "\n  → Files:\n    1. " ++ first.display ++ "\n    2. " ++ second.display
  | .unresolved dependency => dependency.message
  | .compileFailed output => output.failureMessage "failed to compile"
  | .secondary failure => failure.message
  | .invalidNamespace invalid => invalid.message
  | .sourceRootNotFound root => "source root not found: " ++ root.display
  | .invalidConfig invalid => invalid.message
  | .file failure => "IO error: " ++ failure.message

/-- What lies behind the failure of a build, the nearest cause first. -/
def causes : BuildError → List String
  | .secondary failure => failure.causes
  | .file failure => [failure.message]
  | _ => []

end BuildError

/-- What a build has done so far. -/
structure Progress where
  workspace : Workspace
  /-- The commands that were run or tried, the first one first. -/
  commands : List Command
  notices : List Notice

namespace Progress

/-- Nothing has been done yet. -/
def start (workspace : Workspace) : Progress :=
  ⟨workspace, [], []⟩

end Progress

/-- A build that gives a value. -/
abbrev Build (α : Type) := ExceptT BuildError (StateM Progress) α

/-- Runs a command, or gives the reason why it cannot be started.  What happens may depend on the
commands run before, and the workspace may be changed. -/
structure Runner where
  run : List Command → Command → Workspace → Except String CommandOutput × Workspace

namespace Build

variable {α ε : Type}

/-- Carry out a build on a workspace. -/
def on (build : Build α) (workspace : Workspace) : Except BuildError α × Progress :=
  build.run.run (Progress.start workspace)

/-- Go on with a result, or fail with its error. -/
def ofExcept (toError : ε → BuildError) : Except ε α → Build α
  | .ok value => return value
  | .error failure => throw (toError failure)

/-- Go on with a result of a file operation. -/
def ofFile : Except FileFailure α → Build α :=
  ofExcept .file

/-- Go on with a result of the system. -/
def ofSystem : Except SystemFailure α → Build α :=
  ofExcept fun failure => .file (.system failure)

/-- Add notices. -/
def report (notices : List Notice) : Build Unit :=
  modify fun progress => { progress with notices := progress.notices ++ notices }

/-- Go on with a result that comes with notices. -/
def ofReported (reported : Except FileFailure α × List Notice) : Build α := do
  report reported.2
  ofFile reported.1

/-- Replace the workspace. -/
def setWorkspace (workspace : Workspace) : Build Unit :=
  modify fun progress => { progress with workspace := workspace }

/-- Make a directory and those above it that are missing. -/
def makeDirectories (path : Path) : Build Unit := do
  let (outcome, workspace) := (← get).workspace.makeDirectories path
  setWorkspace workspace
  ofSystem outcome

/-- Run a command. -/
def runCommand (runner : Runner) (command : Command) : Build (Except String CommandOutput) := do
  let progress ← get
  let (outcome, workspace) := runner.run progress.commands command progress.workspace
  set { progress with workspace := workspace, commands := progress.commands ++ [command] }
  return outcome

/-- The absolute form of a path. -/
def absolute (path : Path) : Build Path := do
  ofFile ((← get).workspace.absolute path)

end Build

end ClojureBuild
