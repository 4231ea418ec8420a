import ClojureBuild.Build.Project
import ClojureBuild.Proofs.Build.Steps

/-!
# Running commands

The batch and the secondary compilers run commands one after the other.  So what every command keeps,
and the making of the target keeps, is kept by all of them, however they end.
-/

namespace ClojureBuild

/-- Tools that run commands in a given way. -/
def toolsOf (runner : Runner) : Tools where
  toolchain := ⟨⟨"clj.jar"⟩, ⟨"java"⟩⟩
  runner := runner
  hindrances := unhindered
  resolver := LocalRepository.resolve ⟨none, ⟨""⟩⟩
  compilers := Build.compilerPrograms runner CompileSettings.default

/-- Commands that do nothing. -/
def idleRunner : Runner :=
  ⟨fun _ _ workspace => (.ok .silentSuccess, workspace)⟩

namespace Build

variable {invariant : Workspace → Prop} {runner : Runner}

/-- Every command keeps an invariant of the workspace. -/
def RunnerKeeps (runner : Runner) (invariant : Workspace → Prop) : Prop :=
  ∀ earlier command workspace,
    invariant workspace → invariant (runner.run earlier command workspace).2

/-- A build keeps an invariant of the workspace. -/
abbrev KeepsWorkspace {α : Type} (invariant : Workspace → Prop) (build : Build α) : Prop :=
  Keeps (fun progress => invariant progress.workspace) build

theorem keepsWorkspace_runCommand
    (kept : RunnerKeeps runner invariant) (command : Command) :
    KeepsWorkspace invariant (runCommand runner command) := by
  intro progress held
  rw [after_runCommand]
  exact kept progress.commands command progress.workspace held

/-- Nothing changes any more once it is known what came of a command. -/
theorem keepsWorkspace_outcome
    (outcome : Except String CommandOutput)
    (notLaunched : String → BuildError) (failed : CommandOutput → BuildError) :
    KeepsWorkspace invariant
      (match outcome with
        | .error reason => throw (notLaunched reason)
        | .ok output => if output.succeeded then return () else throw (failed output)) := by
  cases outcome with
  | error reason =>
      exact Keeps.throw (notLaunched reason)
  | ok output =>
      cases succeeded : output.succeeded with
      | true =>
          simpa only [succeeded, if_true] using Keeps.pure ()
      | false =>
          simpa [succeeded] using Keeps.throw (failed output)

/-! ## The batch -/

/-- Making a target keeps an invariant, and when it succeeds a stronger one holds. -/
structure MakesTarget (target : Path) (invariant ready : Workspace → Prop) : Prop where
  keeps : KeepsWorkspace invariant (makeDirectories target)
  succeeds : ∀ {progress later}, invariant progress.workspace →
    (makeDirectories target).after progress = (.ok (), later) → ready later.workspace
  stronger : ∀ {workspace}, ready workspace → invariant workspace

namespace MakesTarget

variable {ready : Workspace → Prop} {target : Path}

theorem of_keeps (made : KeepsWorkspace invariant (makeDirectories target)) :
    MakesTarget target invariant invariant where
  keeps := made
  succeeds := by
    intro progress later held done
    have kept := made progress held
    rwa [done] at kept
  stronger := id

/-- The batch runs its command where the target has been made. -/
theorem keepsWorkspace_runBatch
    {java : Path} {namespaces : List Namespace} {classpath : Classpath}
    (makes : MakesTarget target invariant ready) (kept : RunnerKeeps runner ready) :
    KeepsWorkspace invariant (runBatch runner java namespaces classpath target) := by
  rw [runBatch]
  split
  · exact Keeps.pure ()
  · have ran : KeepsWorkspace ready (do
        match ← runCommand runner (Batch.command java namespaces classpath target) with
        | .error reason => throw (.misconfigured (.javaNotLaunched java reason))
        | .ok output => if output.succeeded then return () else throw (.compileFailed output)) :=
      (keepsWorkspace_runCommand kept _).bind fun {outcome _ _} held _ =>
        keepsWorkspace_outcome outcome _ _ _ held
    intro progress held
    have keptTarget := makes.keeps progress held
    rw [after_bind]
    cases made : (makeDirectories target).after progress with
    | mk outcome later =>
        rw [made] at keptTarget
        cases outcome with
        | error failure =>
            exact keptTarget
        | ok value =>
            exact makes.stronger (ran later (makes.succeeds held made))

theorem keepsWorkspace_compileNamespaces
    {tools : Tools} {namespaces : List Namespace} {definitions : List Definition}
    {classpath : Classpath} (makes : MakesTarget target invariant ready)
    (kept : RunnerKeeps tools.runner ready) :
    KeepsWorkspace invariant
      (compileNamespaces tools namespaces definitions classpath target) := by
  intro progress held
  rw [compileNamespaces, after_bind_of_ok (after_get progress), ofSystem]
  have asked :
      KeepsWorkspace invariant
        (ofExcept (fun failure => BuildError.file (.system failure))
          (progress.workspace.isBatchDue target definitions namespaces)) :=
    Keeps.ofExcept _ _
  refine asked.bind (fun {due _ _} held _ => ?_) progress held
  cases due with
  | false =>
      exact held
  | true =>
      have ran :
          KeepsWorkspace invariant
            (runBatch tools.runner tools.toolchain.java namespaces classpath target) :=
        makes.keepsWorkspace_runBatch kept
      have told : KeepsWorkspace invariant (pure !namespaces.isEmpty : Build Bool) :=
        Keeps.pure _
      exact ran.bind (fun held _ => told _ held) _ held

end MakesTarget

/-- A batch that succeeds has nothing to compile, or makes the target and runs its command. -/
theorem of_runBatch_eq_ok
    {java target : Path} {namespaces : List Namespace} {classpath : Classpath}
    {progress later : Progress}
    (ran : (runBatch runner java namespaces classpath target).after progress = (.ok (), later)) :
    (namespaces = [] ∧ later = progress) ∨
      ∃ ready output,
        (makeDirectories target).after progress = (.ok (), ready) ∧
          runner.run ready.commands (Batch.command java namespaces classpath target)
              ready.workspace = (.ok output, later.workspace) ∧ output.succeeded = true := by
  unfold runBatch at ran
  split at ran
  · next nothing =>
      rw [after_pure, Prod.mk.injEq] at ran
      exact Or.inl ⟨List.isEmpty_iff.1 nothing, ran.2.symm⟩
  · right
    rcases after_bind_eq_ok_iff.1 ran with ⟨value, ready, made, ran⟩
    rcases after_bind_eq_ok_iff.1 ran with ⟨outcome, reached, launched, ended⟩
    rw [after_runCommand, Prod.mk.injEq, Except.ok.injEq] at launched
    rcases launched with ⟨isOutcome, rfl⟩
    cases outcome with
    | error reason =>
        rw [after_throw, Prod.mk.injEq] at ended
        cases ended.1
    | ok output =>
        cases succeeded : output.succeeded with
        | false =>
            simp [succeeded] at ended
        | true =>
            simp only [succeeded, if_true, after_pure, Prod.mk.injEq] at ended
            rcases ended with ⟨-, rfl⟩
            exact ⟨ready, output, made, Prod.ext isOutcome rfl, succeeded⟩

/-! ## Secondary compilers -/

/-- Run a command of a secondary compiler as part of a build. -/
def runSecondaryCommand (runner : Runner) (command : Command) : Build Unit := do
  match ← runCommand runner command with
  | .error reason => throw (.secondary (.notLaunched command.programName reason))
  | .ok output =>
      if output.succeeded then return ()
      else throw (.secondary (.failed command.programName output))

/-- What a secondary compiler does is part of the build, but for the kind of its failures. -/
theorem after_adapt {ε α : Type} (change : ε → BuildError) (first : ExceptT ε (StateM Progress) α)
    (progress : Progress) :
    Build.after (ExceptT.adapt change first) progress =
      ((first.run.run progress).1.mapError change, (first.run.run progress).2) :=
  rfl

theorem adapt_runSecondary (runner : Runner) (command : Command) :
    ExceptT.adapt .secondary (runSecondary runner command) =
      runSecondaryCommand runner command := by
  refine eq_of_after_eq fun progress => ?_
  have ran :
      (runSecondary runner command).run.run progress =
        (match (runner.run progress.commands command progress.workspace).1 with
          | .error reason => throw (.notLaunched command.programName reason)
          | .ok output =>
              if output.succeeded then return () else throw (.failed command.programName output) :
            ExceptT SecondaryFailure (StateM Progress) Unit).run.run
          { progress with
            workspace := (runner.run progress.commands command progress.workspace).2
            commands := progress.commands ++ [command] } :=
    rfl
  rw [after_adapt, ran, runSecondaryCommand,
    after_bind_of_ok (after_runCommand runner command progress)]
  cases (runner.run progress.commands command progress.workspace).1 with
  | error reason =>
      rfl
  | ok output =>
      cases succeeded : output.succeeded with
      | true =>
          simp only [succeeded, if_true]
          rfl
      | false =>
          simp only [succeeded]
          rfl

theorem adapt_bind {ε α β : Type} (change : ε → BuildError)
    (first : ExceptT ε (StateM Progress) α) (second : α → ExceptT ε (StateM Progress) β) :
    ExceptT.adapt change (first >>= second) =
      ExceptT.adapt change first >>= fun value => ExceptT.adapt change (second value) := by
  refine eq_of_after_eq fun progress => ?_
  have ran :
      (first >>= second).run.run progress =
        (ExceptT.bindCont second (first.run.run progress).1).run (first.run.run progress).2 :=
    rfl
  rw [after_adapt change (first >>= second), ran, after_bind, after_adapt change first]
  cases (first.run.run progress).1 with
  | error failure =>
      rfl
  | ok value =>
      rfl

/-- A unit is compiled by running the commands for it. -/
theorem compileUnit_eq (runner : Runner) (settings : CompileSettings) (unit : CompileUnit) :
    compileUnit (compilerPrograms runner settings) unit =
      (unit.commandsAs unit.language (settings.optionsFor unit.language) settings.javac).forM
        (runSecondaryCommand runner) := by
  rw [compileUnit, compilerPrograms]
  generalize unit.commandsAs unit.language (settings.optionsFor unit.language) settings.javac =
    commands
  induction commands with
  | nil =>
      rfl
  | cons command rest inductionHypothesis =>
      have split :
          (command :: rest).forM (runSecondary runner) =
            runSecondary runner command >>= fun _ => rest.forM (runSecondary runner) :=
        rfl
      rw [split, adapt_bind, adapt_runSecondary, inductionHypothesis]
      rfl

theorem keepsWorkspace_runSecondaryCommand
    (kept : RunnerKeeps runner invariant) (command : Command) :
    KeepsWorkspace invariant (runSecondaryCommand runner command) := by
  exact (keepsWorkspace_runCommand kept command).bind fun {outcome _ _} held _ =>
    keepsWorkspace_outcome outcome _ _ _ held

theorem keepsWorkspace_compileUnit
    (kept : RunnerKeeps runner invariant) (settings : CompileSettings) (unit : CompileUnit) :
    KeepsWorkspace invariant (compileUnit (compilerPrograms runner settings) unit) := by
  rw [compileUnit_eq]
  induction unit.commandsAs unit.language (settings.optionsFor unit.language) settings.javac with
  | nil =>
      exact Keeps.pure PUnit.unit
  | cons command rest inductionHypothesis =>
      exact (keepsWorkspace_runSecondaryCommand kept command).bind fun held _ =>
        inductionHypothesis _ held

/-- Delegating keeps what every command keeps. -/
theorem keepsWorkspace_delegate
    (kept : RunnerKeeps runner invariant) (settings : CompileSettings) (classpath : Classpath)
    (target : Path) (shares : List Share) :
    KeepsWorkspace invariant
      (delegate (compilerPrograms runner settings) classpath target shares) := by
  have rest (shares : List Share) :
      KeepsWorkspace invariant
        (delegateRest (compilerPrograms runner settings) classpath target shares) := by
    induction shares with
    | nil =>
        exact Keeps.pure ()
    | cons share others inductionHypothesis =>
        exact (keepsWorkspace_compileUnit kept settings _).bind fun held _ =>
          inductionHypothesis _ held
  cases shares with
  | nil =>
      exact Keeps.pure ()
  | cons share others =>
      exact (keepsWorkspace_compileUnit kept settings _).bind fun held _ => rest others _ held

end Build

end ClojureBuild
