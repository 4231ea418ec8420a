import ClojureBuild.Text.Encoding
import ClojureBuild.Text.Fields

/-!
# External commands

A command is a program and its arguments.  A command that ran has left a status and what it
printed; one that could not be started has left the reason.
-/

namespace ClojureBuild

/-- A program and its arguments, in bytes. -/
structure Command where
  program : ByteText
  arguments : List ByteText
  deriving DecidableEq, Repr

namespace Command

/-- A program without arguments. -/
def ofProgram (program : ByteText) : Command :=
  ⟨program, []⟩

/-- The command with further arguments at the end. -/
def followedBy (command : Command) (arguments : List ByteText) : Command :=
  { command with arguments := command.arguments ++ arguments }

/-- The place of the first argument with the given bytes. -/
def position? (command : Command) (argument : ByteText) : Option Nat :=
  command.arguments.findIdx? (· == argument)

/-- The name of the program, as it is shown. -/
def programName (command : Command) : String :=
  Text.decodeLossy command.program

/-- The command on one line, as it is shown. -/
def display (command : Command) : String :=
  Text.joinWith " " ((command.program :: command.arguments).map Text.decodeLossy)

end Command

/-- What a finished command has left. -/
structure CommandOutput where
  /-- The exit code, or nothing when a signal ended the command. -/
  code : Option Int
  standardOutput : String
  standardError : String
  deriving DecidableEq, Repr

namespace CommandOutput

/-- The output of a command that succeeds silently. -/
def silentSuccess : CommandOutput :=
  ⟨some 0, "", ""⟩

/-- Whether a command succeeded. -/
def succeeded (output : CommandOutput) : Bool :=
  output.code == some 0

/-- How a command ended. -/
def status (output : CommandOutput) : String :=
  match output.code with
  | some code => "exit code " ++ toString code
  | none => "terminated by signal"

/-- All that a command printed. -/
def printed (output : CommandOutput) : String :=
  output.standardOutput ++ output.standardError

/-- The message about a program that failed. -/
def failureMessage (output : CommandOutput) (action : String) : String :=
  action ++ " (" ++ output.status ++ "):\n" ++ output.printed

end CommandOutput

end ClojureBuild
