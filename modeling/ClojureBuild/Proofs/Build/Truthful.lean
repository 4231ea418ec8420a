import ClojureBuild.Proofs.Build.BatchDecision
import ClojureBuild.Proofs.Build.FailStop
import ClojureBuild.Proofs.Build.Mirrors
import ClojureBuild.Proofs.Workspace.LinkedDirectories

/-!
# What a report tells

The report of a build that succeeds tells what the build has done: whether it has run a batch, which
secondary compilers it has run and which resources it has written.  A build that has done nothing has
made the target at most.
-/

namespace ClojureBuild

/-- Exactly one of the commands is that of a batch. -/
def Batch.OnceIn (commands : List Command) : Prop :=
  ∃ front command rest, commands = front ++ command :: rest ∧ IsCommand command ∧
    ∀ other ∈ front ++ rest, ¬ IsCommand other

/-- The first command for a unit is that of the compiler of its language. -/
theorem CompileUnit.exists_commands_eq_cons (settings : CompileSettings) (unit : CompileUnit) :
    ∃ first rest, unit.commands settings = first :: rest ∧
      first.program = unit.language.compiler := by
  unfold commands
  cases unit.language with
  | scala =>
      exact ⟨_, _, rfl, rfl⟩
  | groovy =>
      exact ⟨_, _, rfl, rfl⟩
  | java =>
      exact ⟨_, _, rfl, rfl⟩

namespace Build

open Workspace

variable {tools : Tools} {settings : CompileSettings} {options : BuildOptions} {plan : Plan}
variable {progress later : Progress} {compiled : Bool} {report : BuildReport}

/-! ## The batch -/

/-- The commands of the batch, if it is run. -/
def batchCommands (java : Path) (plan : Plan) (compiled : Bool) : List Command :=
  if compiled then [Batch.command java plan.namespaces plan.classpath plan.target] else []

theorem batchCommands_eq_nil_iff {java : Path} :
    batchCommands java plan compiled = [] ↔ compiled = false := by
  cases compiled with
  | true =>
      exact iff_of_false (by simp [batchCommands]) (by simp)
  | false =>
      exact iff_of_true rfl rfl

/-- A step that runs no batch does nothing. -/
theorem of_compileNamespaces_eq_ok
    (done : (compileNamespaces tools plan.namespaces plan.definitions plan.classpath
      plan.target).after progress = (.ok compiled, later)) :
    (batchOccasions tools.toolchain.java plan progress).map Occasion.command =
        batchCommands tools.toolchain.java plan compiled ∧
      (compiled = false → later = progress) := by
  rw [compileNamespaces, after_bind_of_ok (after_get progress), after_bind_eq_ok_iff] at done
  obtain ⟨due, reached, decided, done⟩ := done
  rw [ofSystem, after_ofExcept, Prod.mk.injEq, mapError_eq_ok_iff] at decided
  obtain ⟨isDue, rfl⟩ := decided
  rw [batchOccasions, isDue]
  cases due with
  | false =>
      cases done
      exact ⟨rfl, fun _ => rfl⟩
  | true =>
      obtain ⟨_, ran, running, last⟩ := after_bind_eq_ok_iff.1 done
      cases last
      cases nothing : plan.namespaces.isEmpty with
      | true =>
          rw [runBatch, if_pos nothing] at running
          cases running
          exact ⟨rfl, fun _ => rfl⟩
      | false =>
          cases of_runBatch_eq_ok running with
          | inl empty =>
              rw [empty.1] at nothing
              cases nothing
          | inr run =>
              obtain ⟨ready, output, made, -, -⟩ := run
              rw [after_makeDirectories, Prod.mk.injEq, mapError_eq_ok_iff] at made
              have prepared :
                  progress.workspace.makeDirectories plan.target =
                    (.ok (), (progress.workspace.makeDirectories plan.target).2) :=
                Prod.ext made.1 rfl
              rw [prepared]
              exact ⟨rfl, fun contradiction => by cases contradiction⟩

/-- Whether a batch is run can be read off the commands. -/
theorem compiled_iff_onceIn (java : Path) (plan : Plan) (compiled : Bool) {others : List Command}
    (noBatch : ∀ command ∈ others, ¬ Batch.IsCommand command) :
    (compiled = true ↔ Batch.OnceIn (batchCommands java plan compiled ++ others)) ∧
      (compiled = false ↔
        ∀ command ∈ batchCommands java plan compiled ++ others, ¬ Batch.IsCommand command) := by
  have isBatch := Batch.isCommand_command java plan.namespaces plan.classpath plan.target
  cases compiled with
  | true =>
      refine ⟨iff_of_true rfl ⟨[], _, others, rfl, isBatch, noBatch⟩, iff_of_false (by simp) ?_⟩
      intro none
      exact none _ List.mem_cons_self isBatch
  | false =>
      refine ⟨iff_of_false (by simp) ?_, iff_of_true rfl noBatch⟩
      intro once
      obtain ⟨front, command, rest, split, isCommand, -⟩ := once
      have member : command ∈ others := by
        rw [show others = front ++ command :: rest from split]
        exact List.mem_append_right front List.mem_cons_self
      exact noBatch command member isCommand

/-! ## Secondary commands -/

theorem not_isCommand_of_mem_commands {units : List CompileUnit} {command : Command}
    (member : command ∈ units.flatMap (CompileUnit.commands settings)) :
    ¬ Batch.IsCommand command := by
  obtain ⟨unit, -, ofUnit⟩ := List.mem_flatMap.1 member
  exact Batch.not_isCommand_of_outputs (CompileUnit.outputs_of_mem_commandsAs ofUnit)

/-- No command is run for units when there are none, and only then. -/
theorem flatMap_commands_eq_nil_iff {units : List CompileUnit} :
    units.flatMap (CompileUnit.commands settings) = [] ↔ units = [] := by
  cases units with
  | nil =>
      simp
  | cons unit rest =>
      obtain ⟨first, others, isCons, -⟩ := unit.exists_commands_eq_cons settings
      simp [isCons]

theorem language_unitsFor (classpath : Classpath) (target : Path) (shares : List Share) :
    (unitsFor classpath target shares).map CompileUnit.language = shares.map Share.language := by
  conv_rhs => rw [← share_unitsFor classpath target shares]
  rw [List.map_map]
  rfl

theorem unitsFor_eq_nil_iff {classpath : Classpath} {target : Path} {shares : List Share} :
    unitsFor classpath target shares = [] ↔ shares = [] := by
  cases shares <;> simp [unitsFor]

/-! ## The whole report -/

/-- A report tells what a build with a plan has done to a workspace. -/
structure Truthful (tools : Tools) (settings : CompileSettings) (options : BuildOptions)
    (workspace : Workspace) (plan : Plan) (planned : Progress) (report : BuildReport)
    (later : Progress) : Prop where
  compiled : report.compiled = true ↔ Batch.OnceIn later.commands
  uncompiled : report.compiled = false ↔ ∀ command ∈ later.commands, ¬ Batch.IsCommand command
  secondary : ∃ (batch : List Command) (units : List CompileUnit),
    later.commands = batch ++ units.flatMap (CompileUnit.commands settings) ∧
      (∀ command ∈ batch, Batch.IsCommand command) ∧
        report.secondary = units.map CompileUnit.language ∧
          ∀ unit ∈ units, ∃ first rest, unit.commands settings = first :: rest ∧
            first.program = unit.language.compiler
  inOrder : report.secondary.Sublist Language.byPriority
  copied : ∃ prepared pairs filled filling,
    (prepareTarget tools plan).after planned = (.ok report.compiled, prepared) ∧
      (∀ pair ∈ pairs, IsResource plan pair) ∧
        Mirrors pairs ⟨report.copied, report.unchanged⟩ prepared.workspace filled.workspace ∧
          (finish tools options plan filling).after filled = (.ok report, later)
  didNothing : report.didNothing = true ↔ later.commands = [] ∧ report.copied = []
  untouched : report.didNothing = true →
    workspace.makeDirectories report.target = (.ok (), later.workspace) ∧
      MadeFor (onTheWayTo report.target) workspace later.workspace

/-- The parts of a build that succeeds, from its plan on. -/
structure Phases (tools : Tools) (settings : CompileSettings) (options : BuildOptions)
    (plan : Plan) (planned : Progress) (report : BuildReport) (later : Progress)
    (compiled : Bool) (passes : List ResourceReport) (prepared filled : Progress)
    (shares : List Share) : Prop where
  preparing : (prepareTarget tools plan).after planned = (.ok compiled, prepared)
  passing : (plan.sources.roots.mapM fun root =>
    copyResources tools.hindrances root plan.target plan.namespaces).after prepared =
      (.ok passes, filled)
  finishing : (finish tools options plan (compiled, passes)).after filled = (.ok report, later)
  isReport : report = reportOf plan (compiled, passes) shares
  commands : later.commands = batchCommands tools.toolchain.java plan compiled ++
    (unitsFor plan.classpath plan.target shares).flatMap (CompileUnit.commands settings)
  dealt : ∃ files, shares = options.policy.shares files
  idle : shares = [] → later.workspace = filled.workspace

theorem exists_phases
    {sources : List Path} {target : Path} {dependencies : List Dependency} {workspace : Workspace}
    (programs : tools.compilers = compilerPrograms tools.runner settings)
    (done : (compile tools sources target dependencies options).on workspace =
      (.ok report, later)) :
    ∃ plan planned compiled passes prepared filled shares,
      (makePlan tools sources target dependencies options).on workspace = (.ok plan, planned) ∧
        Phases tools settings options plan planned report later compiled passes prepared filled
          shares := by
  obtain ⟨plan, planned, filling, filled, planning, filledTarget, finishing⟩ :=
    compile_eq_ok_iff.1 done
  have ran := commands_of_ok programs planning filledTarget (congrArg Prod.fst done)
  rw [congrArg Prod.snd done] at ran
  obtain ⟨files, notices, listed, isReport, delegated⟩ := finish_eq_ok_iff.1 finishing
  rw [fillTarget_eq] at filledTarget
  obtain ⟨compiled, prepared, preparing, passing⟩ := after_bind_eq_ok_iff.1 filledTarget
  obtain ⟨passes, reached, passed, last⟩ := after_bind_eq_ok_iff.1 passing
  cases last
  obtain ⟨isCompiled, between, compiling, making⟩ := after_bind_eq_ok_iff.1 preparing
  obtain ⟨_, made, -, isLast⟩ := after_bind_eq_ok_iff.1 making
  cases isLast
  rw [(of_compileNamespaces_eq_ok compiling).1, dueCommands, listed] at ran
  refine ⟨plan, planned, compiled, passes, prepared, filled, options.policy.shares files,
    planning, preparing, passed, finishing, isReport, ran, ⟨files, rfl⟩, ?_⟩
  intro noShares
  rw [noShares] at delegated
  cases delegated
  rfl

/-! ## Doing nothing -/

/-- When no batch is run, preparing the target makes the target. -/
theorem makeDirectories_of_prepareTarget
    (prepared : (prepareTarget tools plan).after progress = (.ok false, later)) :
    progress.workspace.makeDirectories plan.target = (.ok (), later.workspace) := by
  obtain ⟨compiled, between, ran, making⟩ := after_bind_eq_ok_iff.1 prepared
  obtain ⟨_, reached, made, last⟩ := after_bind_eq_ok_iff.1 making
  cases last
  cases (of_compileNamespaces_eq_ok ran).2 rfl
  rw [after_makeDirectories, Prod.mk.injEq, mapError_eq_ok_iff] at made
  obtain ⟨succeeded, rfl⟩ := made
  exact Prod.ext succeeded rfl

namespace Phases

variable {planned prepared filled : Progress} {passes : List ResourceReport}
variable {shares : List Share}

theorem didNothing_iff
    (phases : Phases tools settings options plan planned report later compiled passes prepared
      filled shares) :
    report.didNothing = true ↔ compiled = false ∧ shares = [] ∧ report.copied = [] := by
  rw [phases.isReport]
  cases compiled <;> simp [BuildReport.didNothing, reportOf, and_comm]

/-- A build that says that nothing was done has made the target at most. -/
theorem makeDirectories_of_didNothing
    (phases : Phases tools settings options plan planned report later compiled passes prepared
      filled shares) (didNothing : report.didNothing = true) :
    planned.workspace.makeDirectories plan.target = (.ok (), later.workspace) := by
  obtain ⟨uncompiled, noShares, noCopies⟩ := phases.didNothing_iff.1 didNothing
  obtain ⟨pairs, -, mirrors⟩ := mirrors_of_passes (fun root => id) phases.passing
  rw [phases.isReport] at noCopies
  have preparing := phases.preparing
  rw [uncompiled] at preparing
  rw [phases.idle noShares, mirrors.eq_of_copied_eq_nil noCopies]
  exact makeDirectories_of_prepareTarget preparing

theorem truthful
    (phases : Phases tools settings options plan planned report later compiled passes prepared
      filled shares) :
    Truthful tools settings options planned.workspace plan planned report later := by
  have noBatch :
      ∀ command ∈ (unitsFor plan.classpath plan.target shares).flatMap
          (CompileUnit.commands settings), ¬ Batch.IsCommand command :=
    fun command => not_isCommand_of_mem_commands
  have isCompiled : report.compiled = compiled := by rw [phases.isReport]; rfl
  have isSecondary : report.secondary = shares.map Share.language := by rw [phases.isReport]; rfl
  have isTarget : report.target = plan.target := by rw [phases.isReport]; rfl
  obtain ⟨once, never⟩ :=
    compiled_iff_onceIn tools.toolchain.java plan compiled noBatch
  rw [← phases.commands, ← isCompiled] at once never
  obtain ⟨pairs, resources, mirrors⟩ := mirrors_of_passes (fun root => id) phases.passing
  refine ⟨once, never, ?_, ?_, ?_, ?_, ?_⟩
  · refine ⟨_, unitsFor plan.classpath plan.target shares, phases.commands, ?_, ?_, ?_⟩
    · intro command member
      rw [batchCommands] at member
      split at member
      · rw [List.mem_singleton.1 member]
        exact Batch.isCommand_command _ _ _ _
      · cases member
    · rw [isSecondary, language_unitsFor]
    · exact fun unit _ => unit.exists_commands_eq_cons settings
  · rw [isSecondary]
    obtain ⟨files, rfl⟩ := phases.dealt
    exact options.policy.languages_shares_sublist files
  · refine ⟨prepared, pairs, filled, (compiled, passes), ?_, resources, ?_, phases.finishing⟩
    · rw [isCompiled]
      exact phases.preparing
    · rw [phases.isReport]
      exact mirrors
  · rw [phases.didNothing_iff, phases.commands, List.append_eq_nil_iff,
      batchCommands_eq_nil_iff, flatMap_commands_eq_nil_iff, unitsFor_eq_nil_iff, and_assoc]
  · intro didNothing
    have made := phases.makeDirectories_of_didNothing didNothing
    rw [isTarget]
    refine ⟨made, ?_⟩
    have only := madeFor_makeDirectories planned.workspace plan.target
    rwa [made] at only

end Phases

/-- The report of a build that succeeds tells the truth: a batch has been run exactly when it says so,
the secondary compilers that have been run are those of the languages it lists, and the resources
written are those it lists.  It says that nothing was done exactly when no command was run and nothing
written, and then the workspace has at most gained the target and directories on the way to it. -/
theorem report_tells_the_truth
    {sources : List Path} {target : Path} {dependencies : List Dependency} {workspace : Workspace}
    (programs : tools.compilers = compilerPrograms tools.runner settings)
    (done : (compile tools sources target dependencies options).on workspace =
      (.ok report, later)) :
    ∃ plan planned,
      (makePlan tools sources target dependencies options).on workspace = (.ok plan, planned) ∧
        Truthful tools settings options workspace plan planned report later := by
  obtain ⟨plan, planned, compiled, passes, prepared, filled, shares, planning, phases⟩ :=
    exists_phases programs done
  refine ⟨plan, planned, planning, ?_⟩
  obtain ⟨-, sameWorkspace, -⟩ :=
    (reads_makePlan tools sources target dependencies options).of_after_eq_ok planning
  have unchanged : planned.workspace = workspace := sameWorkspace
  rw [← unchanged]
  exact phases.truthful

/-! ## Sources in two languages -/

/-- A namespace and a file for a secondary compiler. -/
def twoLanguages : Workspace :=
  ⟨⟨[([], .directory ⟨0⟩), (["src"], .directory ⟨0⟩), (["src", "a.clj"], .file [] ⟨0⟩ 420),
      (["src", "B.scala"], .file [] ⟨0⟩ 420)]⟩, [], ⟨"/home"⟩, ⟨0⟩, []⟩

theorem report_on_two_languages :
    ∃ report later plan planned,
      (compile (toolsOf idleRunner) [⟨"src"⟩] ⟨"out"⟩ [] ⟨none, .firstMatch⟩).on twoLanguages =
          (.ok report, later) ∧
        (report.compiled, report.copied, report.secondary, report.didNothing) =
            (true, [⟨"/out/B.scala"⟩], [.scala], false) ∧
          Truthful (toolsOf idleRunner) CompileSettings.default ⟨none, .firstMatch⟩ twoLanguages
            plan planned report later := by
  have told :
      ((compile (toolsOf idleRunner) [⟨"src"⟩] ⟨"out"⟩ [] ⟨none, .firstMatch⟩).on
          twoLanguages).1.toOption.map (fun report =>
        (report.compiled, report.copied, report.secondary, report.didNothing)) =
        some (true, [⟨"/out/B.scala"⟩], [.scala], false) := by
    decide +kernel
  cases built :
      (compile (toolsOf idleRunner) [⟨"src"⟩] ⟨"out"⟩ [] ⟨none, .firstMatch⟩).on
        twoLanguages with
  | mk outcome later =>
      rw [built] at told
      cases outcome with
      | error failure =>
          cases told
      | ok report =>
          obtain ⟨plan, planned, -, truthful⟩ := report_tells_the_truth rfl built
          exact ⟨report, later, plan, planned, rfl, Option.some.inj told, truthful⟩

end Build

end ClojureBuild
