import ClojureBuild.Path

/-!
# Arguments of the command line

Arguments are read from left to right, first those of the program and then those of a subcommand.
An option that takes a value is settled only when the next option or the end is reached; what is
wrong with it counts less than an argument that is not known at all.  Some options may be given on
both levels, where the subcommand has precedence.
-/

namespace ClojureBuild.CommandLine

/-- What the program can be told to do. -/
inductive Subcommand where
  | compile
  | namespaces
  | classpath
  deriving DecidableEq, Repr

/-- Where an argument stands: before the subcommand, or after it. -/
inductive Level where
  | program
  | after (subcommand : Subcommand)
  deriving DecidableEq, Repr

/-- An option without a value. -/
inductive Switch where
  | json
  | verbose
  | allSecondary
  | help
  | version
  deriving DecidableEq, Repr

/-- An option with a value. -/
inductive ValueOption where
  | config
  | source
  | target
  | dependency
  | libs
  deriving DecidableEq, Repr

/-- An option. -/
inductive CommandOption where
  | switch (meant : Switch)
  | value (meant : ValueOption)
  deriving DecidableEq, Repr

/-- Why arguments do not say what to do. -/
inductive UsageError where
  | unknownArgument
  | invalidSubcommand
  | invalidValue
  | tooManyValues
  | argumentConflict
  | missingSubcommand
  | missingArguments
  | helpRequested
  | versionRequested
  deriving DecidableEq, Repr

namespace UsageError

/-- The exit code: asking for help or the version is no failure. -/
def exitCode : UsageError → Nat
  | .helpRequested => 0
  | .versionRequested => 0
  | _ => 2

end UsageError

/-! ## Names -/

/-- The subcommands by name. -/
def subcommands : List (String × Subcommand) :=
  [("compile", .compile), ("namespaces", .namespaces), ("classpath", .classpath)]

/-- The name that asks for help like a subcommand. -/
def helpName : String := "help"

/-- The options of every level by their long names. -/
def sharedLongNames : List (String × CommandOption) :=
  [("json", .switch .json), ("verbose", .switch .verbose), ("config", .value .config),
    ("help", .switch .help)]

/-- The options of every level by their short names. -/
def sharedShortNames : List (Char × CommandOption) :=
  [('v', .switch .verbose), ('h', .switch .help)]

namespace Level

/-- The options of one level only by their long names. -/
def ownLongNames : Level → List (String × CommandOption)
  | .program => [("version", .switch .version)]
  | .after .compile =>
      [("source", .value .source), ("target", .value .target),
        ("dependency", .value .dependency), ("libs", .value .libs),
        ("all-secondary", .switch .allSecondary)]
  | .after .namespaces => [("source", .value .source)]
  | .after .classpath => [("source", .value .source), ("dependency", .value .dependency)]

/-- The options of one level only by their short names. -/
def ownShortNames : Level → List (Char × CommandOption)
  | .program => [('V', .switch .version)]
  | .after .compile => [('s', .value .source), ('t', .value .target), ('d', .value .dependency)]
  | .after .namespaces => [('s', .value .source)]
  | .after .classpath => [('s', .value .source), ('d', .value .dependency)]

/-- The option with a long name. -/
def longOption? (level : Level) (name : String) : Option CommandOption :=
  (sharedLongNames ++ level.ownLongNames).lookup name

/-- The option with a short name. -/
def shortOption? (level : Level) (letter : Char) : Option CommandOption :=
  (sharedShortNames ++ level.ownShortNames).lookup letter

/-- What is wrong with an argument that is neither an option nor a value. -/
def strayArgument : Level → UsageError
  | .program => .invalidSubcommand
  | .after _ => .unknownArgument

/-- What is wrong with an argument after two dashes. -/
def strayAfterDashes (level : Level) (argument : String) : UsageError :=
  if argument = helpName ∨ (subcommands.lookup argument).isSome then .unknownArgument
  else level.strayArgument

end Level

/-! ## Options given on one level -/

/-- The options given on one level. -/
structure Given where
  json : Bool
  verbose : Nat
  config : Option Path
  sources : List Path
  target : Option Path
  dependencies : List String
  libs : Option (List String)
  allSecondary : Bool
  deriving DecidableEq, Repr

namespace Given

/-- No option. -/
def none : Given :=
  ⟨false, 0, .none, [], .none, [], .none, false⟩

/-- The greatest number of times that an option counts. -/
def greatestCount : Nat := 255

/-- Set an option that may be given once and whose value is not empty. -/
def setOnce (held : Option Path) (value : String) : Except UsageError (Option Path) :=
  if held.isSome then .error .argumentConflict
  else if value = "" then .error .invalidValue
  else .ok (some (.ofText value))

/-- Add the value of an option. -/
def supply (given : Given) (meant : ValueOption) (value : String) : Except UsageError Given :=
  match meant with
  | .config => (setOnce given.config value).map fun config => { given with config := config }
  | .target => (setOnce given.target value).map fun target => { given with target := target }
  | .source =>
      if value = "" then .error .invalidValue
      else .ok { given with sources := given.sources ++ [.ofText value] }
  | .dependency => .ok { given with dependencies := given.dependencies ++ [value] }
  | .libs => .ok { given with libs := some (given.libs.getD [] ++ Text.fields ',' value) }

/-- Turn on an option that may be given once. -/
def turnOnOnce (held : Bool) (changed : Given) : Except UsageError Given :=
  if held then .error .argumentConflict else .ok changed

/-- Turn on an option. -/
def turnOn (given : Given) : Switch → Except UsageError Given
  | .json => turnOnOnce given.json { given with json := true }
  | .allSecondary => turnOnOnce given.allSecondary { given with allSecondary := true }
  | .verbose => .ok { given with verbose := min greatestCount (given.verbose + 1) }
  | .help => .error .helpRequested
  | .version => .error .versionRequested

end Given

/-! ## Reading -/

/-- The options given so far, and the last option with its value as long as it is not settled. -/
structure ReadingState where
  given : Given
  pending : Option (ValueOption × Option String)
  deriving DecidableEq, Repr

namespace ReadingState

/-- Nothing has been read. -/
def start : ReadingState :=
  ⟨Given.none, .none⟩

/-- Whether the next argument may be the value of an option. -/
def isAwaitingValue (state : ReadingState) : Bool :=
  match state.pending with
  | some (_, none) => true
  | _ => false

/-- The options given, with the last one settled. -/
def settle (state : ReadingState) : Except UsageError Given :=
  match state.pending with
  | none => .ok state.given
  | some (_, none) => .error .invalidValue
  | some (meant, some value) => state.given.supply meant value

/-- Take an option whose value is attached to it. -/
def takeAttached (state : ReadingState) (meant : ValueOption) (value : String) :
    Except UsageError ReadingState := do
  let given ← state.settle
  return ⟨← given.supply meant value, .none⟩

/-- Take an option whose value is to follow. -/
def takeAwaiting (state : ReadingState) (meant : ValueOption) : Except UsageError ReadingState := do
  return ⟨← state.settle, some (meant, .none)⟩

/-- Take an option without a value. -/
def takeSwitch (state : ReadingState) (meant : Switch) : Except UsageError ReadingState := do
  let given ← state.settle
  return ⟨← given.turnOn meant, .none⟩

/-- Take a value for the option that awaits it. -/
def takeValue (state : ReadingState) (value : String) : ReadingState :=
  { state with pending := state.pending.map fun awaiting => (awaiting.1, some value) }

end ReadingState

/-- A text before and after its first equals sign. -/
def cutAtEquals : List Char → List Char × Option (List Char)
  | [] => ([], none)
  | '=' :: rest => ([], some rest)
  | letter :: rest =>
      let (name, value) := cutAtEquals rest
      (letter :: name, value)

/-- Take an option with a long name, perhaps with a value after an equals sign. -/
def takeLong (level : Level) (letters : List Char) (state : ReadingState) :
    Except UsageError ReadingState :=
  let (name, value) := cutAtEquals letters
  match level.longOption? (String.ofList name), value with
  | none, _ => .error .unknownArgument
  | some (.switch meant), none => state.takeSwitch meant
  | some (.switch _), some _ => .error .tooManyValues
  | some (.value meant), none => state.takeAwaiting meant
  | some (.value meant), some attached => state.takeAttached meant (String.ofList attached)

/-- A value attached to a short name, perhaps after an equals sign. -/
def attachedValue : List Char → String
  | '=' :: rest => String.ofList rest
  | letters => String.ofList letters

/-- Take options with short names, the last one perhaps with a value attached. -/
def takeShort (level : Level) : List Char → ReadingState → Except UsageError ReadingState
  | [], state => .ok state
  | letter :: rest, state =>
      match level.shortOption? letter with
      | none => .error .unknownArgument
      | some (.switch meant) => do takeShort level rest (← state.takeSwitch meant)
      | some (.value meant) =>
          if rest.isEmpty then state.takeAwaiting meant
          else state.takeAttached meant (attachedValue rest)

/-- Take an argument that is no subcommand. -/
def takeArgument (level : Level) (argument : String) (state : ReadingState) :
    Except UsageError ReadingState :=
  match argument.toList with
  | '-' :: '-' :: letters => takeLong level letters state
  | '-' :: letter :: letters => takeShort level (letter :: letters) state
  | _ =>
      if state.isAwaitingValue then .ok (state.takeValue argument)
      else .error level.strayArgument

/-- How the arguments of a level end: all of them were read, or a subcommand follows. -/
inductive Ending where
  | finished
  | subcommand (name : Subcommand) (rest : List String)
  deriving DecidableEq, Repr

/-- What follows a request for help: at most the name of a subcommand. -/
def readHelp : List String → UsageError
  | [] => .helpRequested
  | [name] =>
      if name = helpName ∨ (subcommands.lookup name).isSome then .helpRequested
      else .invalidSubcommand
  | _ => .invalidSubcommand

/-- The subcommand that an argument names, if one may stand here. -/
def subcommandHere? (level : Level) (argument : String) (state : ReadingState) :
    Option Subcommand :=
  if level = .program ∧ state.isAwaitingValue = false then subcommands.lookup argument else none

/-- Read the arguments of a level. -/
def readLevel (level : Level) :
    List String → ReadingState → Except UsageError (ReadingState × Ending)
  | [], state => .ok (state, .finished)
  | argument :: rest, state =>
      if level = .program ∧ state.isAwaitingValue = false ∧ argument = helpName then
        .error (readHelp rest)
      else
        match subcommandHere? level argument state with
        | some name => .ok (state, .subcommand name rest)
        | none =>
            if argument = "--" then
              match rest with
              | [] => .ok (state, .finished)
              | stray :: _ => .error (level.strayAfterDashes stray)
            else do
              readLevel level rest (← takeArgument level argument state)

/-! ## Invocations -/

/-- What the program is to do. -/
inductive Action where
  | compile (sources : List Path) (target : Option Path) (dependencies : List String)
      (libs : Option (List String)) (allSecondary : Bool)
  | namespaces (sources : List Path)
  | classpath (sources : List Path) (dependencies : List String)
  deriving DecidableEq, Repr

/-- What the program is to do, and how it is to show it. -/
structure Invocation where
  json : Bool
  verbose : Nat
  config : Option Path
  action : Action
  deriving DecidableEq, Repr

/-- The action of a subcommand with the options given to it. -/
def Given.action (given : Given) : Subcommand → Action
  | .compile =>
      .compile given.sources given.target given.dependencies given.libs given.allSecondary
  | .namespaces => .namespaces given.sources
  | .classpath => .classpath given.sources given.dependencies

/-- The invocation with options given before the subcommand and after it. -/
def Given.invocation (before after : Given) (subcommand : Subcommand) : Invocation where
  json := before.json || after.json
  verbose := if after.verbose = 0 then before.verbose else after.verbose
  config := after.config <|> before.config
  action := after.action subcommand

/-- Why arguments without a subcommand do not say what to do. -/
def withoutSubcommand (given : Given) : UsageError :=
  if given = Given.none then .missingArguments else .missingSubcommand

/-- Read the arguments of the program. -/
def parse (arguments : List String) : Except UsageError Invocation := do
  match ← readLevel .program arguments .start with
  | (state, .finished) => throw (withoutSubcommand (← state.settle))
  | (state, .subcommand name rest) =>
      let (inner, _) ← readLevel (.after name) rest .start
      let after ← inner.settle
      let before ← state.settle
      return before.invocation after name

end ClojureBuild.CommandLine
