import ClojureBuild.Proofs.Build.Occasions

/-!
# Builds stop at the first command that fails

With external programs as compilers a build runs at most one batch and then the commands for the
shares of the secondary languages, in order.  The first command that does not end with code 0 is the
last one.  The build fails because of it, and leaves the workspace as this command has left it.
-/

namespace ClojureBuild.Build

variable {α : Type} {runner : Runner} {tools : Tools} {settings : CompileSettings}
variable {options : BuildOptions} {batch secondary : List Occasion}
variable {planning : Except BuildError Plan × Progress}

/-- The occasions at which a build runs commands, once its plan has been made: the batch, and if the
target could be filled the secondary commands in turn, for the files that are there then. -/
inductive Course (tools : Tools) (settings : CompileSettings) (options : BuildOptions) :
    Except BuildError Plan × Progress → List Occasion → List Occasion → Prop
  | unplanned (failure : BuildError) (planned : Progress) :
      Course tools settings options (.error failure, planned) [] []
  | unfilled {plan : Plan} {planned later : Progress} {failure : BuildError}
      (filling : (fillTarget tools plan).after planned = (.error failure, later)) :
      Course tools settings options (.ok plan, planned)
        (batchOccasions tools.toolchain.java plan planned) []
  | filled {plan : Plan} {planned later : Progress} {value : Bool × List ResourceReport}
      (filling : (fillTarget tools plan).after planned = (.ok value, later)) :
      Course tools settings options (.ok plan, planned)
        (batchOccasions tools.toolchain.java plan planned)
        (inTurn tools.runner later.commands (dueCommands settings options plan later.workspace)
          later.workspace)

theorem commands_batchOccasions (java : Path) (plan : Plan) (progress : Progress) :
    (batchOccasions java plan progress).map Occasion.command <+:
      [Batch.command java plan.namespaces plan.classpath plan.target] := by
  unfold batchOccasions
  split
  · split
    · exact List.nil_prefix
    · split
      · exact List.prefix_refl _
      · exact List.nil_prefix
  · exact List.nil_prefix

namespace Course

theorem commands_batch (course : Course tools settings options planning batch secondary) :
    batch = [] ∨ ∃ plan, planning.1 = .ok plan ∧
      batch.map Occasion.command <+:
        [Batch.command tools.toolchain.java plan.namespaces plan.classpath plan.target] := by
  cases course with
  | unplanned failure planned =>
      exact Or.inl rfl
  | unfilled filling =>
      exact Or.inr ⟨_, rfl, commands_batchOccasions _ _ _⟩
  | filled filling =>
      exact Or.inr ⟨_, rfl, commands_batchOccasions _ _ _⟩

/-- The secondary commands are the first ones of those for the files in the filled target. -/
theorem commands_secondary (course : Course tools settings options planning batch secondary) :
    secondary = [] ∨ ∃ plan value filled, planning.1 = .ok plan ∧
      (fillTarget tools plan).after planning.2 = (.ok value, filled) ∧
        secondary.map Occasion.command <+: dueCommands settings options plan filled.workspace := by
  cases course with
  | unplanned failure planned =>
      exact Or.inl rfl
  | unfilled filling =>
      exact Or.inl rfl
  | filled filling =>
      exact Or.inr ⟨_, _, _, rfl, filling, commands_inTurn _ _ _ _⟩

end Course

/-- A build has ended with a failure, and the workspace is as a command has left it. -/
structure StoppedAt (runner : Runner) (occasion : Occasion) (failure : BuildError)
    (result : Except BuildError α × Progress) : Prop where
  outcome : result.1 = .error failure
  workspace : result.2.workspace = occasion.left runner

/-- The commands of a build are those of a batch and of secondary compilers, and nothing happens
after one of them that does not succeed. -/
structure FailStop (runner : Runner) (java : Path) (batch secondary : List Occasion)
    (result : Except BuildError α × Progress) : Prop where
  commands : result.2.commands = (batch ++ secondary).map Occasion.command
  batchStops : ∀ occasion ∈ batch, occasion.succeeds runner = false →
    secondary = [] ∧ StoppedAt runner occasion (occasion.batchFailure runner java) result
  secondaryStops : ∀ front occasion rest, secondary = front ++ occasion :: rest →
    occasion.succeeds runner = false →
      rest = [] ∧ StoppedAt runner occasion (occasion.secondaryFailure runner) result
  succeeds : ∀ value, result.1 = .ok value →
    ∀ occasion ∈ batch ++ secondary, occasion.succeeds runner = true

namespace FailStop

variable {java : Path} {result : Except BuildError α × Progress}

theorem of_batch
    (conducted : Conducted runner (Occasion.batchFailure runner java) [] batch result) :
    FailStop runner java batch [] result where
  commands := by rw [conducted.commands, List.append_nil, List.nil_append]
  batchStops := by
    intro occasion member failed
    obtain ⟨front, rest, split⟩ := List.append_of_mem member
    obtain ⟨-, outcome, isLeft⟩ := conducted.stops front occasion rest split failed
    exact ⟨rfl, outcome, isLeft⟩
  secondaryStops := by simp
  succeeds := by
    intro value done occasion member
    rw [List.append_nil] at member
    exact conducted.succeeds_of_ok done occasion member

theorem of_secondary
    (batchSucceeded : ∀ occasion ∈ batch, occasion.succeeds runner = true)
    (conducted : Conducted runner (Occasion.secondaryFailure runner)
      (batch.map Occasion.command) secondary result) :
    FailStop runner java batch secondary result where
  commands := by rw [conducted.commands, List.map_append]
  batchStops := by
    intro occasion member failed
    rw [batchSucceeded occasion member] at failed
    cases failed
  secondaryStops := by
    intro front occasion rest split failed
    obtain ⟨isLast, outcome, isLeft⟩ := conducted.stops front occasion rest split failed
    exact ⟨isLast, outcome, isLeft⟩
  succeeds := by
    intro value done occasion member
    rcases List.mem_append.1 member with inBatch | inSecondary
    · exact batchSucceeded occasion inBatch
    · exact conducted.succeeds_of_ok done occasion inSecondary

end FailStop

theorem exists_course
    (programs : tools.compilers = compilerPrograms tools.runner settings)
    (sources : List Path) (target : Path) (dependencies : List Dependency)
    (options : BuildOptions) (workspace : Workspace) :
    ∃ batch secondary,
      Course tools settings options
          ((makePlan tools sources target dependencies options).on workspace) batch secondary ∧
        FailStop tools.runner tools.toolchain.java batch secondary
          ((compile tools sources target dependencies options).on workspace) := by
  -- making the plan runs nothing, so the commands of the batch are the first ones
  have reads := reads_makePlan tools sources target dependencies options
  rw [on_eq_after (compile tools sources target dependencies options), compile_eq, after_bind]
  obtain ⟨notices, planning⟩ := reads (Progress.start workspace)
  rw [on_eq_after, planning]
  cases readPlan tools sources target dependencies options (Progress.start workspace).workspace with
  | error failure =>
      exact ⟨[], [], .unplanned _ _, .of_batch (.of_same rfl)⟩
  | ok plan =>
      have conducted :=
        conducted_fillTarget tools plan { Progress.start workspace with notices := notices }
      simp only [after_bind]
      cases filling :
          (fillTarget tools plan).after { Progress.start workspace with notices := notices } with
      | mk outcome later =>
          rw [filling] at conducted
          cases outcome with
          | error failure =>
              exact ⟨_, [], .unfilled filling, .of_batch conducted.of_error⟩
          | ok value =>
              have finished := conducted_finish programs options plan value later
              have before : later.commands = _ := conducted.commands
              rw [before] at finished
              refine ⟨_, _, .filled filling, .of_secondary (conducted.succeeds_of_ok rfl) ?_⟩
              rw [before]
              exact finished

/-- A build that succeeds has run all commands that were due. -/
theorem commands_of_ok
    {sources : List Path} {target : Path} {dependencies : List Dependency} {workspace : Workspace}
    {plan : Plan} {planned filled : Progress} {value : Bool × List ResourceReport}
    {report : BuildReport} (programs : tools.compilers = compilerPrograms tools.runner settings)
    (planning : (makePlan tools sources target dependencies options).on workspace =
      (.ok plan, planned))
    (filling : (fillTarget tools plan).after planned = (.ok value, filled))
    (done : ((compile tools sources target dependencies options).on workspace).1 = .ok report) :
    ((compile tools sources target dependencies options).on workspace).2.commands =
      (batchOccasions tools.toolchain.java plan planned).map Occasion.command ++
        dueCommands settings options plan filled.workspace := by
  obtain ⟨batch, secondary, course, stops⟩ :=
    exists_course programs sources target dependencies options workspace
  have succeeded := stops.succeeds report done
  rw [stops.commands, List.map_append]
  rw [planning] at course
  cases course with
  | unfilled failing =>
      rw [filling] at failing
      cases failing
  | filled reached =>
      rw [filling] at reached
      cases reached
      rw [commands_inTurn_of_succeeds fun occasion member =>
        succeeded occasion (List.mem_append_right _ member)]

/-- The commands of a build are at most one batch, for all namespaces of its plan, and then commands
for the shares of the secondary languages in order, each run in what the ones before have left.
Nothing happens after the first one that does not succeed: the build fails, with what this command has
left and answered.  When a build succeeds all its commands have. -/
theorem first_failing_command_ends_build
    (toolchain : Toolchain) (runner : Runner) (hindrances : Hindrances) (resolver : Resolver)
    (settings : CompileSettings) (sources : List Path) (target : Path)
    (dependencies : List Dependency) (options : BuildOptions) (workspace : Workspace) :
    let tools : Tools := ⟨toolchain, runner, hindrances, resolver, compilerPrograms runner settings⟩
    let planning := (makePlan tools sources target dependencies options).on workspace
    let result := (compile tools sources target dependencies options).on workspace
    ∃ batch secondary,
      Course tools settings options planning batch secondary ∧
        FailStop runner toolchain.java batch secondary result ∧
          (batch = [] ∨ ∃ plan, planning.1 = .ok plan ∧
            batch.map Occasion.command <+:
              [Batch.command toolchain.java plan.namespaces plan.classpath plan.target]) ∧
            (secondary = [] ∨ ∃ plan value filled, planning.1 = .ok plan ∧
              (fillTarget tools plan).after planning.2 = (.ok value, filled) ∧
                secondary.map Occasion.command <+:
                  dueCommands settings options plan filled.workspace) ∧
              ∀ occasion ∈ batch, ∀ output,
                occasion.answer runner = .ok output → output.succeeded = false →
                  ∃ failure, result.1 = .error failure ∧
                    failure.message = "failed to compile (" ++ output.status ++ "):\n" ++
                      (output.standardOutput ++ output.standardError) := by
  intro tools planning result
  have programs : tools.compilers = compilerPrograms tools.runner settings := rfl
  obtain ⟨batch, secondary, course, stops⟩ :=
    exists_course programs sources target dependencies options workspace
  refine ⟨batch, secondary, course, stops, course.commands_batch, course.commands_secondary, ?_⟩
  intro occasion member output answered failed
  have unsuccessful : occasion.succeeds runner = false := by
    rw [Occasion.succeeds, answered]
    exact failed
  obtain ⟨-, stopped⟩ := stops.batchStops occasion member unsuccessful
  refine ⟨_, stopped.outcome, ?_⟩
  have blamed : occasion.batchFailure runner toolchain.java = .compileFailed output := by
    rw [Occasion.batchFailure, answered]
  rw [blamed]
  rfl

end ClojureBuild.Build
