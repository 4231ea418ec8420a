import ClojureBuild.Build
import ClojureBuild.Language.Commands
import ClojureBuild.Language.Share

/-!
# Delegation

Secondary compilers run one after the other on their shares of the files.  The first one sees the
classpath of the build, the later ones also what the earlier ones have written to the target.
-/

namespace ClojureBuild

/-- Compiles a unit. -/
abbrev SecondaryCompiler := CompileUnit → ExceptT SecondaryFailure (StateM Progress) Unit

namespace Build

/-- Run a command of a secondary compiler, which has to succeed. -/
def runSecondary (runner : Runner) (command : Command) :
    ExceptT SecondaryFailure (StateM Progress) Unit := do
  let progress ← get
  let (outcome, workspace) := runner.run progress.commands command progress.workspace
  set { progress with workspace := workspace, commands := progress.commands ++ [command] }
  match outcome with
  | .error reason => throw (.notLaunched command.programName reason)
  | .ok output =>
      if output.succeeded then return () else throw (.failed command.programName output)

/-- The compilers of the secondary languages as external programs. -/
def compilerPrograms (runner : Runner) (settings : CompileSettings) (language : Language) :
    SecondaryCompiler := fun unit =>
  (unit.commandsAs language (settings.optionsFor language) settings.javac).forM
    (runSecondary runner)

/-- Compile a unit as part of a build. -/
def compileUnit (compilers : Language → SecondaryCompiler) (unit : CompileUnit) : Build Unit :=
  ExceptT.adapt .secondary (compilers unit.language unit)

/-- Compile the shares after the first one. -/
def delegateRest (compilers : Language → SecondaryCompiler) (classpath : Classpath)
    (target : Path) : List Share → Build Unit
  | [] => return ()
  | share :: rest => do
      compileUnit compilers ⟨share.language, share.files, classpath.push target, target⟩
      delegateRest compilers classpath target rest

/-- Compile the shares in order. -/
def delegate (compilers : Language → SecondaryCompiler) (classpath : Classpath) (target : Path) :
    List Share → Build Unit
  | [] => return ()
  | share :: rest => do
      compileUnit compilers ⟨share.language, share.files, classpath, target⟩
      delegateRest compilers classpath target rest

end Build

end ClojureBuild
