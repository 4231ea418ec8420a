import ClojureBuild.Build.Batch
import ClojureBuild.Language

/-!
# Scripted compilers

Compilers that behave as a script says: they refuse to start, fail with some output, or succeed and
write the class files that a compiler would write.
-/

namespace ClojureBuild.Runner

/-- How a program behaves. -/
inductive Behaviour where
  | refuses (reason : String)
  | fails (output : CommandOutput)
  | succeeds (writes : Bool) (standardOutput standardError : String)
  deriving DecidableEq, Repr

/-- The permissions of a class file. -/
def classFileMode : Nat := 0o644

/-- What follows an argument. -/
def after? (marker : ByteText) : List ByteText → Option (List ByteText)
  | [] => none
  | argument :: rest => if argument = marker then some rest else after? marker rest

/-- The class file of a source file, with the extension of its source as content. -/
def classOfSource? (directory : Path) (source : Path) : Option (Path × ByteText) :=
  match source.stem?, source.extension? with
  | some stem, some extension =>
      if Language.byPriority.any fun language => language.extension == extension then
        some (directory.join ⟨stem ++ ".class"⟩, extension)
      else
        none
  | _, _ => none

/-- The class files that a secondary compiler writes. -/
def secondaryOutputs (arguments : List ByteText) : List (Path × ByteText) :=
  match after? "-d" arguments with
  | some (directory :: sources) =>
      sources.filterMap fun source => classOfSource? ⟨directory⟩ ⟨source⟩
  | _ => []

/-- The directory that an argument of the batch names. -/
def outputDirectory? (arguments : List ByteText) : Option Path :=
  let marker := (Batch.outputArgument ⟨""⟩).toList
  (arguments.find? fun argument => marker.isPrefixOf argument.toList).map fun argument =>
    ⟨String.ofList (argument.toList.drop marker.length)⟩

/-- The class file of a namespace, with its name as content. -/
def classOfNamespace (directory : Path) (name : ByteText) : Path × ByteText :=
  (directory.join ⟨Text.joinWith "/" (Text.fields '.' name) ++ Namespace.artifactSuffix⟩, name)

/-- The class files that the batch writes. -/
def batchOutputs (arguments : List ByteText) : List (Path × ByteText) :=
  match outputDirectory? arguments, after? Batch.mainClass arguments with
  | some directory, some names => names.map (classOfNamespace directory)
  | _, _ => []

/-- The class files that a command writes. -/
def outputs (command : Command) : List (Path × ByteText) :=
  if Language.byPriority.any fun language => language.compiler == command.program then
    secondaryOutputs command.arguments
  else
    batchOutputs command.arguments

/-- Write a file, through the directories that it needs. -/
def writeThrough (workspace : Workspace) (path : Path) (content : ByteText) :
    Except SystemFailure Unit × Workspace :=
  let write := fun (prepared : Workspace) =>
    match prepared.writeFile path (Text.toBytes content) classFileMode with
    | .ok written => (.ok (), written)
    | .error failure => (.error failure, prepared)
  match path.parent? with
  | none => write workspace
  | some parent =>
      match workspace.makeDirectories parent with
      | (.ok (), prepared) => write prepared
      | failed => failed

/-- Write files one after the other. -/
def writeAll : List (Path × ByteText) → Workspace → Except SystemFailure Unit × Workspace
  | [], workspace => (.ok (), workspace)
  | (path, content) :: rest, workspace =>
      match writeThrough workspace path content with
      | (.ok (), written) => writeAll rest written
      | failed => failed

/-- Run a command as its program behaves. -/
def perform (behaviour : Behaviour) (command : Command) (workspace : Workspace) :
    Except String CommandOutput × Workspace :=
  match behaviour with
  | .refuses reason => (.error reason, workspace)
  | .fails output => (.ok output, workspace)
  | .succeeds writes standardOutput standardError =>
      let files := if writes then outputs command else []
      match writeAll files workspace with
      | (.ok (), written) => (.ok ⟨some 0, standardOutput, standardError⟩, written)
      | (.error failure, written) => (.error failure.message, written)

/-- A runner whose programs behave as listed, those not listed succeeding silently. -/
def scripted (behaviours : List (ByteText × Behaviour)) : Runner where
  run := fun _ command workspace =>
    let behaviour := (behaviours.lookup command.program).getD (.succeeds true "" "")
    perform behaviour command workspace

/-- A runner that answers the commands in turn, and succeeds silently once the answers are used
up. -/
def answering (answers : List (Except String CommandOutput)) : Runner where
  run := fun earlier _ workspace =>
    ((answers[earlier.length]?).getD (.ok .silentSuccess), workspace)

end ClojureBuild.Runner
