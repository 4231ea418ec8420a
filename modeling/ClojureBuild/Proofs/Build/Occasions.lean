import ClojureBuild.Proofs.Build.Delegation
import ClojureBuild.Proofs.Build.Stepwise
import ClojureBuild.Proofs.FileArguments

/-!
# The commands of a build

A build runs the batch at most once and after it the commands of the secondary compilers, each at the
workspace that the steps before it have left.  The first command that does not succeed ends the build:
it leaves the workspace as this command has left it and fails with what the command has answered.
-/

namespace ClojureBuild

/-- A command that is run, what has been run before it, and the workspace that it finds. -/
structure Occasion where
  earlier : List Command
  command : Command
  found : Workspace

namespace Occasion

/-- What comes of the command. -/
def answer (runner : Runner) (occasion : Occasion) : Except String CommandOutput :=
  (runner.run occasion.earlier occasion.command occasion.found).1

/-- The workspace that the command leaves. -/
def left (runner : Runner) (occasion : Occasion) : Workspace :=
  (runner.run occasion.earlier occasion.command occasion.found).2

/-- Whether the command is started and ends with code 0. -/
def succeeds (runner : Runner) (occasion : Occasion) : Bool :=
  match occasion.answer runner with
  | .ok output => output.succeeded
  | .error _ => false

/-- Why a build fails whose batch does not succeed. -/
def batchFailure (runner : Runner) (java : Path) (occasion : Occasion) : BuildError :=
  match occasion.answer runner with
  | .error reason => .misconfigured (.javaNotLaunched java reason)
  | .ok output => .compileFailed output

/-- Why a build fails when a command of a secondary compiler does not succeed. -/
def secondaryFailure (runner : Runner) (occasion : Occasion) : BuildError :=
  match occasion.answer runner with
  | .error reason => .secondary (.notLaunched occasion.command.programName reason)
  | .ok output => .secondary (.failed occasion.command.programName output)

end Occasion

namespace Build

variable {α β : Type} {build : Build α} {next : α → Build β} {runner : Runner}
variable {blame : Occasion → BuildError} {progress later : Progress} {occasions : List Occasion}
variable {tools : Tools} {plan : Plan} {options : BuildOptions} {allowed : Command → Prop}

/-! ## Which commands are run -/

/-- After some commands others have been run, and only such as are allowed. -/
def Adds (allowed : Command → Prop) (before : List Command) (progress : Progress) : Prop :=
  ∃ others, progress.commands = before ++ others ∧ ∀ command ∈ others, allowed command

theorem Adds.refl (progress : Progress) : Adds allowed progress.commands progress :=
  ⟨[], by rw [List.append_nil], by simp⟩

theorem Adds.trans {before : List Command}
    (first : Adds allowed before progress) (second : Adds allowed progress.commands later) :
    Adds allowed before later := by
  obtain ⟨early, isEarly, earlyAllowed⟩ := first
  obtain ⟨late, isLate, lateAllowed⟩ := second
  refine ⟨early ++ late, by rw [isLate, isEarly, List.append_assoc], fun command member => ?_⟩
  rcases List.mem_append.1 member with inEarly | inLate
  · exact earlyAllowed command inEarly
  · exact lateAllowed command inLate

/-- A build runs allowed commands only. -/
def RunsOnly (allowed : Command → Prop) (build : Build α) : Prop :=
  ∀ progress, Adds allowed progress.commands (build.after progress).2

/-- A build runs no command. -/
abbrev RunsNothing (build : Build α) : Prop :=
  RunsOnly (fun _ => False) build

theorem RunsNothing.commands (idle : RunsNothing build) (progress : Progress) :
    (build.after progress).2.commands = progress.commands := by
  obtain ⟨others, added, none⟩ := idle progress
  rw [added, List.eq_nil_iff_forall_not_mem.2 none, List.append_nil]

namespace RunsOnly

theorem of_same (same : ∀ progress, (build.after progress).2.commands = progress.commands) :
    RunsOnly allowed build :=
  fun progress => ⟨[], by rw [same, List.append_nil], by simp⟩

theorem of_reads {outcome : Workspace → Except BuildError α} (reads : Reads build outcome) :
    RunsOnly allowed build := by
  refine of_same fun progress => ?_
  obtain ⟨notices, same⟩ := reads progress
  rw [same]

theorem pure (value : α) : RunsOnly allowed (pure value : Build α) :=
  of_same fun _ => rfl

theorem bind (first : RunsOnly allowed build) (second : ∀ value, RunsOnly allowed (next value)) :
    RunsOnly allowed (build >>= next) := by
  intro progress
  have added := first progress
  rw [after_bind]
  cases done : build.after progress with
  | mk outcome later =>
      rw [done] at added
      cases outcome with
      | error failure =>
          exact added
      | ok value =>
          exact added.trans (second value later)

theorem stepwise : Stepwise (RunsOnly allowed) where
  pure := pure
  bind := bind
  look := fun each => (of_same fun _ => rfl : RunsOnly allowed get).bind fun progress =>
    each progress.workspace
  report notices := of_reads (Reads.report notices)
  setWorkspace _ := of_same fun _ => rfl
  ofFile result := of_reads (Reads.ofExcept .file result)
  checkRoot root := of_reads (reads_checkRoot root)

end RunsOnly

/-! ## Commands that stop a build -/

/-- A build runs its commands at the given occasions, and nothing happens after one whose command
does not succeed: the build fails because of it. -/
structure Conducted (runner : Runner) (blame : Occasion → BuildError) (before : List Command)
    (occasions : List Occasion) (result : Except BuildError α × Progress) : Prop where
  commands : result.2.commands = before ++ occasions.map Occasion.command
  stops : ∀ front occasion rest, occasions = front ++ occasion :: rest →
    occasion.succeeds runner = false →
      rest = [] ∧ result.1 = .error (blame occasion) ∧
        result.2.workspace = occasion.left runner

namespace Conducted

variable {before : List Command} {result : Except BuildError α × Progress} {value : α}

theorem of_same (same : result.2.commands = before) :
    Conducted runner blame before [] result where
  commands := by rw [same, List.map_nil, List.append_nil]
  stops := by simp

theorem succeeds_of_ok
    (conducted : Conducted runner blame before occasions result) (done : result.1 = .ok value) :
    ∀ occasion ∈ occasions, occasion.succeeds runner = true := by
  intro occasion member
  obtain ⟨front, rest, split⟩ := List.append_of_mem member
  by_contra failed
  obtain ⟨-, stopped, -⟩ :=
    conducted.stops front occasion rest split (by simpa using failed)
  rw [done] at stopped
  cases stopped

theorem of_error {failure : BuildError}
    (conducted : Conducted runner blame before occasions
      ((.error failure, later) : Except BuildError α × Progress)) :
    Conducted runner blame before occasions
      ((.error failure, later) : Except BuildError β × Progress) where
  commands := conducted.commands
  stops := by
    intro front occasion rest split failed
    obtain ⟨isLast, stopped, isLeft⟩ := conducted.stops front occasion rest split failed
    cases stopped
    exact ⟨isLast, rfl, isLeft⟩

theorem bind
    (conducted : Conducted runner blame before occasions (build.after progress))
    (idle : ∀ value, RunsNothing (next value)) :
    Conducted runner blame before occasions ((build >>= next).after progress) := by
  rw [after_bind]
  cases done : build.after progress with
  | mk outcome later =>
      rw [done] at conducted
      cases outcome with
      | error failure =>
          exact conducted.of_error
      | ok value =>
          refine ⟨?_, fun front occasion rest split failed => ?_⟩
          · exact ((idle value).commands later).trans conducted.commands
          -- a command that does not succeed would have stopped the build before this step
          · obtain ⟨-, stopped, -⟩ := conducted.stops front occasion rest split failed
            cases stopped

/-- A command that succeeds, before others. -/
theorem cons {occasion : Occasion} (succeeded : occasion.succeeds runner = true)
    (others : Conducted runner blame (before ++ [occasion.command]) occasions result) :
    Conducted runner blame before (occasion :: occasions) result := by
  refine ⟨?_, fun front other rest split failed => ?_⟩
  · rw [others.commands, List.map_cons, List.append_assoc, List.singleton_append]
  · cases front with
    | nil =>
        obtain ⟨rfl, -⟩ := List.cons.inj split
        rw [succeeded] at failed
        cases failed
    | cons first front =>
        obtain ⟨-, behind⟩ := List.cons.inj split
        exact others.stops front other rest behind failed

/-- A command that does not succeed is the last one. -/
theorem last {occasion : Occasion}
    (commands : result.2.commands = before ++ [occasion.command])
    (stopped : result.1 = .error (blame occasion))
    (isLeft : result.2.workspace = occasion.left runner) :
    Conducted runner blame before [occasion] result := by
  refine ⟨commands, fun front other rest split _ => ?_⟩
  cases front with
  | nil =>
      obtain ⟨rfl, rfl⟩ := List.cons.inj split
      exact ⟨rfl, stopped, isLeft⟩
  | cons first front =>
      simp at split

end Conducted

/-! ## The batch -/

/-- When the batch of a plan is run: if it is due, there is something to compile and the target can be
made. -/
def batchOccasions (java : Path) (plan : Plan) (progress : Progress) : List Occasion :=
  match progress.workspace.isBatchDue plan.target plan.definitions plan.namespaces with
  | .ok true =>
      if plan.namespaces.isEmpty then []
      else
        match progress.workspace.makeDirectories plan.target with
        | (.ok (), ready) =>
            [⟨progress.commands,
              Batch.command java plan.namespaces plan.classpath plan.target, ready⟩]
        | (.error _, _) => []
  | _ => []

theorem conducted_runBatch {java target : Path} {namespaces : List Namespace}
    {classpath : Classpath} {ready : Workspace} (nonempty : namespaces.isEmpty = false)
    (made : progress.workspace.makeDirectories target = (.ok (), ready)) :
    Conducted runner (Occasion.batchFailure runner java) progress.commands
      [⟨progress.commands, Batch.command java namespaces classpath target, ready⟩]
      ((runBatch runner java namespaces classpath target).after progress) := by
  have isReady :
      (makeDirectories target).after progress =
        (.ok (), { progress with workspace := ready }) := by
    rw [after_makeDirectories, made]
    rfl
  rw [runBatch, if_neg (by simp [nonempty]), after_bind_of_ok isReady,
    after_bind_of_ok (after_runCommand runner _ _)]
  cases answer : (runner.run progress.commands
      (Batch.command java namespaces classpath target) ready).1 with
  | error reason =>
      refine .last rfl ?_ rfl
      simp [Occasion.batchFailure, Occasion.answer, answer]
  | ok output =>
      cases succeeded : output.succeeded with
      | true =>
          refine .cons ?_ (.of_same ?_)
          · simp [Occasion.succeeds, Occasion.answer, answer, succeeded]
          · simp [succeeded]
      | false =>
          refine .last ?_ ?_ ?_
          · simp [succeeded]
          · simp [succeeded, Occasion.batchFailure, Occasion.answer, answer]
          · simp [succeeded, Occasion.left]

theorem conducted_compileNamespaces (tools : Tools) (plan : Plan) (progress : Progress) :
    Conducted tools.runner (Occasion.batchFailure tools.runner tools.toolchain.java)
      progress.commands (batchOccasions tools.toolchain.java plan progress)
      ((compileNamespaces tools plan.namespaces plan.definitions plan.classpath
        plan.target).after progress) := by
  rw [compileNamespaces, after_bind_of_ok (after_get progress), after_bind, ofSystem,
    after_ofExcept, batchOccasions]
  cases progress.workspace.isBatchDue plan.target plan.definitions plan.namespaces with
  | error failure =>
      exact .of_same rfl
  | ok due =>
      cases due with
      | false =>
          exact .of_same rfl
      | true =>
          simp only [Except.mapError, if_true]
          refine Conducted.bind ?_ fun _ => RunsOnly.pure _
          cases nonempty : plan.namespaces.isEmpty with
          | true =>
              rw [runBatch, if_pos nonempty]
              exact .of_same rfl
          | false =>
              simp only [Bool.false_eq_true, if_false]
              cases made : progress.workspace.makeDirectories plan.target with
              | mk outcome ready =>
                  cases outcome with
                  | ok value =>
                      exact conducted_runBatch nonempty made
                  | error failure =>
                      have stopped :
                          (makeDirectories plan.target).after progress =
                            (.error (.file (.system failure)),
                              { progress with workspace := ready }) := by
                        rw [after_makeDirectories, made]
                        rfl
                      rw [runBatch, if_neg (by simp [nonempty]), after_bind_of_error stopped]
                      exact .of_same rfl

theorem conducted_fillTarget (tools : Tools) (plan : Plan) (progress : Progress) :
    Conducted tools.runner (Occasion.batchFailure tools.runner tools.toolchain.java)
      progress.commands (batchOccasions tools.toolchain.java plan progress)
      ((fillTarget tools plan).after progress) := by
  have stepwise : Stepwise (RunsOnly fun _ => False) := RunsOnly.stepwise
  refine (conducted_compileNamespaces tools plan progress).bind fun compiled => ?_
  refine (stepwise.makeDirectories plan.target).bind fun _ => ?_
  refine (stepwise.mapM (fun root => ?_) _).bind fun _ => RunsOnly.pure _
  exact stepwise.copyResources _ root plan.target plan.namespaces

/-! ## Secondary commands -/

/-- The occasions at which commands are run in turn, up to and with the first one that does not
succeed. -/
def inTurn (runner : Runner) : List Command → List Command → Workspace → List Occasion
  | _, [], _ => []
  | earlier, command :: rest, workspace =>
      let occasion : Occasion := ⟨earlier, command, workspace⟩
      occasion ::
        (if occasion.succeeds runner then
          inTurn runner (earlier ++ [command]) rest (occasion.left runner)
        else [])

theorem commands_inTurn (runner : Runner) (earlier commands : List Command)
    (workspace : Workspace) :
    (inTurn runner earlier commands workspace).map Occasion.command <+: commands := by
  induction commands generalizing earlier workspace with
  | nil =>
      exact List.prefix_refl []
  | cons command rest inductionHypothesis =>
      rw [inTurn, List.map_cons, List.cons_prefix_cons]
      refine ⟨rfl, ?_⟩
      split
      · exact inductionHypothesis _ _
      · exact List.nil_prefix

theorem commands_inTurn_of_succeeds
    {runner : Runner} {earlier commands : List Command} {workspace : Workspace}
    (succeed : ∀ occasion ∈ inTurn runner earlier commands workspace,
      occasion.succeeds runner = true) :
    (inTurn runner earlier commands workspace).map Occasion.command = commands := by
  induction commands generalizing earlier workspace with
  | nil =>
      rfl
  | cons command rest inductionHypothesis =>
      rw [inTurn] at succeed ⊢
      obtain ⟨first, others⟩ := List.forall_mem_cons.1 succeed
      rw [if_pos first] at others ⊢
      rw [List.map_cons, inductionHypothesis others]

theorem after_runSecondaryCommand (runner : Runner) (command : Command) (progress : Progress) :
    let occasion : Occasion := ⟨progress.commands, command, progress.workspace⟩
    (runSecondaryCommand runner command).after progress =
      (if occasion.succeeds runner then .ok () else .error (occasion.secondaryFailure runner),
        { progress with
          workspace := occasion.left runner
          commands := progress.commands ++ [command] }) := by
  intro occasion
  rw [runSecondaryCommand, after_bind_of_ok (after_runCommand runner command progress)]
  obtain ⟨answer, answered⟩ : ∃ answer, occasion.answer runner = answer := ⟨_, rfl⟩
  have answered' : (runner.run progress.commands command progress.workspace).1 = answer := answered
  simp only [Occasion.succeeds, Occasion.secondaryFailure, answered, answered']
  cases answer with
  | error reason =>
      rfl
  | ok output =>
      cases succeeded : output.succeeded with
      | true =>
          simp [succeeded, occasion, Occasion.left]
      | false =>
          simp [succeeded, occasion, Occasion.left]

theorem conducted_inTurn (runner : Runner) (commands : List Command) (progress : Progress) :
    Conducted runner (Occasion.secondaryFailure runner) progress.commands
      (inTurn runner progress.commands commands progress.workspace)
      ((forM commands (runSecondaryCommand runner)).after progress) := by
  induction commands generalizing progress with
  | nil =>
      exact .of_same rfl
  | cons command rest inductionHypothesis =>
      rw [List.forM_cons, after_bind, after_runSecondaryCommand, inTurn]
      split
      · next succeeded =>
          exact .cons succeeded (inductionHypothesis { progress with
            workspace := Occasion.left runner ⟨progress.commands, command, progress.workspace⟩
            commands := progress.commands ++ [command] })
      · exact .last rfl rfl rfl

/-- The units of shares: all but the first one see what has been written to the target. -/
def unitsFor (classpath : Classpath) (target : Path) : List Share → List CompileUnit
  | [] => []
  | first :: rest =>
      ⟨first.language, first.files, classpath, target⟩ ::
        rest.map fun share => ⟨share.language, share.files, classpath.push target, target⟩

theorem share_unitsFor (classpath : Classpath) (target : Path) (shares : List Share) :
    (unitsFor classpath target shares).map CompileUnit.share = shares := by
  cases shares with
  | nil =>
      rfl
  | cons first rest =>
      simp [unitsFor, CompileUnit.share, Function.comp_def]

theorem delegate_eq (runner : Runner) (settings : CompileSettings) (classpath : Classpath)
    (target : Path) (shares : List Share) :
    delegate (compilerPrograms runner settings) classpath target shares =
      forM ((unitsFor classpath target shares).flatMap (CompileUnit.commands settings))
        (runSecondaryCommand runner) := by
  -- only the units after the first one share a classpath, so the induction is over them
  have rest (shares : List Share) :
      delegateRest (compilerPrograms runner settings) classpath target shares =
        forM ((shares.map fun share : Share =>
            (⟨share.language, share.files, classpath.push target, target⟩ : CompileUnit)).flatMap
          (CompileUnit.commands settings)) (runSecondaryCommand runner) := by
    induction shares with
    | nil =>
        rfl
    | cons share others inductionHypothesis =>
        rw [delegateRest, compileUnit_eq, inductionHypothesis, List.map_cons, List.flatMap_cons,
          List.forM_append, List.forM_eq_forM]
        rfl
  cases shares with
  | nil =>
      rfl
  | cons share others =>
      rw [delegate, compileUnit_eq, rest, unitsFor, List.flatMap_cons, List.forM_append,
        List.forM_eq_forM]
      rfl

/-- The commands of the secondary compilers for the files that a plan lists in a workspace. -/
def dueCommands (settings : CompileSettings) (options : BuildOptions) (plan : Plan)
    (workspace : Workspace) : List Command :=
  match (workspace.distinctFiles (plan.sources.roots ++ plan.sources.files)).1 with
  | .ok files =>
      (unitsFor plan.classpath plan.target (options.policy.shares files)).flatMap
        (CompileUnit.commands settings)
  | .error _ => []

theorem conducted_finish {settings : CompileSettings}
    (programs : tools.compilers = compilerPrograms tools.runner settings) (options : BuildOptions)
    (plan : Plan) (filled : Bool × List ResourceReport) (progress : Progress) :
    Conducted tools.runner (Occasion.secondaryFailure tools.runner) progress.commands
      (inTurn tools.runner progress.commands
        (dueCommands settings options plan progress.workspace) progress.workspace)
      ((finish tools options plan filled).after progress) := by
  rw [finish, after_bind_of_ok (after_get progress), after_bind, after_ofReported, dueCommands]
  cases (progress.workspace.distinctFiles (plan.sources.roots ++ plan.sources.files)).1 with
  | error failure =>
      exact .of_same rfl
  | ok files =>
      simp only [Except.mapError]
      rw [programs, delegate_eq]
      have conducted := conducted_inTurn tools.runner
        ((unitsFor plan.classpath plan.target (options.policy.shares files)).flatMap
          (CompileUnit.commands settings))
        { progress with notices := progress.notices ++ (progress.workspace.distinctFiles
          (plan.sources.roots ++ plan.sources.files)).2 }
      exact conducted.bind fun _ => RunsOnly.pure _

end Build

end ClojureBuild
