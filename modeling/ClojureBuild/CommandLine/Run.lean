import ClojureBuild.CommandLine.Arguments
import ClojureBuild.Config.Load
import ClojureBuild.Report.Render

/-!
# Running the program

The program reads its arguments and its configuration and then builds a project, lists namespaces
or shows a classpath.  Arguments take precedence over the configuration.  What it shows goes to the
standard output, warnings and failures to the standard error.
-/

namespace ClojureBuild.CommandLine

/-- Why a run fails, from the outside in. -/
structure Trouble where
  message : String
  causes : List String
  deriving DecidableEq, Repr

namespace Trouble

/-- The trouble that a build runs into. -/
def ofBuild (failure : BuildError) : Trouble :=
  ⟨failure.message, failure.causes⟩

/-- A cause with its number. -/
def numbered (number : Nat) (cause : String) : String :=
  "    " ++ toString number ++ ": " ++ Text.hangingIndent "       " cause

/-- The causes below a heading, numbered if there are several. -/
def renderCauses : List String → String
  | [] => ""
  | [cause] => "\n\nCaused by:\n    " ++ Text.hangingIndent "    " cause
  | causes =>
      "\n\nCaused by:\n" ++
        Text.joinWith "\n" (causes.zipIdx.map fun (cause, number) => numbered number cause)

/-- The text about a run that fails. -/
def render (trouble : Trouble) : String :=
  "Error: " ++ trouble.message ++ renderCauses trouble.causes ++ "\n"

end Trouble

/-- The name and version of the program. -/
def versionLine : String := "cljc 0.4.1\n"

/-- What the program leaves behind. -/
structure ProgramOutput where
  code : Nat
  standardOutput : String
  standardError : String
  deriving DecidableEq, Repr

/-- What a run needs to know of its surroundings. -/
structure Surroundings where
  environment : Environment
  runner : Runner
  hindrances : Hindrances

/-- A run, which may fail with a trouble. -/
abbrev Run (α : Type) := ExceptT Trouble (StateM Progress) α

/-- A step of a build as part of a run. -/
def ofBuild {α : Type} (build : Build α) : Run α :=
  ExceptT.adapt Trouble.ofBuild build

/-- A file that was asked for cannot be loaded. -/
def notLoaded (path : Path) (failure : BuildError) : Trouble :=
  ⟨"failed to load " ++ path.display, failure.message :: failure.causes⟩

/-- The configuration: from the file that is asked for, or else the one that is found. -/
def configure (environment : Environment) (asked : Option Path) :
    Run (Config × List Config.Warning) := do
  match asked with
  | some path =>
      let (config, warnings) ← ExceptT.adapt (notLoaded path) (Config.ofFile path)
      return (← ofBuild (Config.override environment config), warnings)
  | none =>
      let workspace := (← get).workspace
      ofBuild (Config.ofProject (some workspace.currentPath) environment)

/-- What is given, or else what is configured. -/
def givenOr {α : Type} (given configured : List α) : List α :=
  if given.isEmpty then configured else given

/-- The dependencies that are given and those that are configured. -/
def dependenciesOf (given : List String) (config : Config) : List Dependency :=
  (given ++ config.project.dependencies).map Dependency.parse

/-- The tools that the configuration describes. -/
def toolsOf (runner : Runner) (hindrances : Hindrances) (config : Config) : Run Tools := do
  let workspace := (← get).workspace
  let repository :=
    LocalRepository.ofRootOrDefault workspace.home config.toolchain.repository
      workspace.currentPath
  ofBuild <| Build.ofExcept .misconfigured <|
    Tools.create config.toolchain runner hindrances repository.resolve config.compile

/-- The options of a build: those that are configured, unless others are given. -/
def optionsOf (libs : Option (List String)) (allSecondary : Bool) (config : Config) :
    BuildOptions :=
  let configured := BuildOptions.ofSettings config.compile
  { configured with
    libs := libs <|> configured.libs,
    policy := if allSecondary then .all else configured.policy }

/-- Do what is asked for, and give what is to be shown, if it can be. -/
def perform (runner : Runner) (hindrances : Hindrances) (config : Config)
    (format : OutputFormat) : Action → Run (Option String)
  | .compile sources target dependencies libs allSecondary => do
      let tools ← toolsOf runner hindrances config
      let report ← ofBuild <| Build.compile tools
        (givenOr sources config.project.sources)
        (target.getD config.project.target)
        (dependenciesOf dependencies config)
        (optionsOf libs allSecondary config)
      return report.render format
  | .namespaces sources => do
      let listings ← ofBuild (Build.namespacesByRoot (givenOr sources config.project.sources))
      return Namespace.renderListings format listings
  | .classpath sources dependencies => do
      let tools ← toolsOf runner hindrances config
      let classpath ← ofBuild <| Build.classpathFor tools
        (givenOr sources config.project.sources)
        (dependenciesOf dependencies config)
      return classpath.render format

/-- The warnings, unless the output is meant for programs. -/
def warningText (format : OutputFormat) (warnings : List Config.Warning) : String :=
  match format with
  | .text => Config.Warning.renderAll warnings
  | .json => ""

/-- What the program leaves behind when it fails after showing warnings. -/
def failing (warnings : String) (trouble : Trouble) : ProgramOutput :=
  ⟨1, "", warnings ++ trouble.render⟩

/-- The report of the program about a result that it cannot show. -/
def crashReport : String :=
  "called `Result::unwrap()` on an `Err` value: Error(\"path contains invalid UTF-8 characters\", " ++
    "line: 0, column: 0)\n"

/-- What the program leaves behind when it crashes after showing warnings. -/
def crashing (warnings : String) : ProgramOutput :=
  ⟨101, "", warnings ++ crashReport⟩

/-- Carry out an invocation. -/
def carryOut (surroundings : Surroundings) (invocation : Invocation) (workspace : Workspace) :
    ProgramOutput × Progress :=
  let format := OutputFormat.ofSwitch invocation.json
  let start := Progress.start workspace
  match (configure surroundings.environment invocation.config).run.run start with
  | (.error trouble, progress) => (failing "" trouble, progress)
  | (.ok (config, warnings), progress) =>
      let shown := warningText format warnings
      let ran := perform surroundings.runner surroundings.hindrances config format invocation.action
      match ran.run.run progress with
      | (.error trouble, finished) => (failing shown trouble, finished)
      | (.ok none, finished) => (crashing shown, finished)
      | (.ok (some text), finished) => (⟨0, text, shown⟩, finished)

/-- What the program leaves behind when its arguments do not say what to do. -/
def refused (failure : UsageError) : ProgramOutput :=
  ⟨failure.exitCode, if failure = .versionRequested then versionLine else "", ""⟩

/-- Run the program on a workspace. -/
def run (surroundings : Surroundings) (arguments : List String) (workspace : Workspace) :
    ProgramOutput × Progress :=
  match parse arguments with
  | .error failure => (refused failure, Progress.start workspace)
  | .ok invocation => carryOut surroundings invocation workspace

end ClojureBuild.CommandLine
