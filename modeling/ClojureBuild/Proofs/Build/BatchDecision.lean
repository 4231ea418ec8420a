import ClojureBuild.Proofs.Build.Occasions
import ClojureBuild.Proofs.Build.UpToDate

/-!
# When the batch is run

The batch is needed when the artifact of some namespace is missing or older than its source.  A build
that gets to decide about it runs it if and only if it is needed and the target can be made: once,
before all other commands, and for all namespaces.
-/

namespace ClojureBuild

/-! ## What needs the batch -/

namespace Workspace

variable {workspace : Workspace} {roots : List Path} {path artifact source target : Path}
variable {namespaces : List Namespace} {definitions : List Definition} {changed : Instant}

theorem isPresent_iff_modified? :
    workspace.isPresent path = true ↔ ∃ instant, workspace.modified? path = .ok (some instant) := by
  rw [isPresent_iff]
  simp only [modified?_eq_ok_some_iff]
  constructor
  · rintro ⟨location, entry, found⟩
    exact ⟨workspace.lastModified location entry, location, entry, found, rfl⟩
  · rintro ⟨instant, location, entry, found, -⟩
    exact ⟨location, entry, found⟩

/-- An artifact is missing or older than a source. -/
def IsStale (workspace : Workspace) (artifact source : Path) : Prop :=
  workspace.isPresent artifact = false ∨
    ∃ written changed, workspace.modified? artifact = .ok (some written) ∧
      workspace.modified? source = .ok (some changed) ∧ written.nanoseconds < changed.nanoseconds

theorem isStale_iff_not_isFresh (known : workspace.modified? source = .ok (some changed)) :
    workspace.IsStale artifact source ↔ workspace.isFresh artifact source ≠ .ok true := by
  rw [ne_eq, isFresh_of_modified? known]
  constructor
  · rintro (missing | ⟨written, instant, wrote, isKnown, order⟩) ⟨other, found, notOlder⟩
    · have present := isPresent_iff_modified?.2 ⟨other, found⟩
      rw [missing] at present
      cases present
    · rw [wrote] at found
      rw [known] at isKnown
      cases found
      cases isKnown
      omega
  · intro notFresh
    cases present : workspace.isPresent artifact with
    | false =>
        exact Or.inl present
    | true =>
        obtain ⟨written, wrote⟩ := isPresent_iff_modified?.1 present
        refine Or.inr ⟨written, changed, wrote, known, ?_⟩
        by_contra notOlder
        exact notFresh ⟨written, wrote, by omega⟩

/-- Some namespace has a source below a root that its artifact is stale against, or neither a source
nor an artifact. -/
def NeedsBatch (workspace : Workspace) (roots : List Path) (target : Path)
    (namespaces : List Namespace) : Prop :=
  ∃ wanted ∈ namespaces,
    (∃ root ∈ roots, workspace.isFile (root.join wanted.sourcePath) = true ∧
        workspace.IsStale (target.join wanted.artifactPath) (root.join wanted.sourcePath)) ∨
      ((∀ root ∈ roots, workspace.isFile (root.join wanted.sourcePath) = false) ∧
        workspace.isPresent (target.join wanted.artifactPath) = false)

theorem modified?_of_isFile (file : workspace.isFile path = true) :
    ∃ instant, workspace.modified? path = .ok (some instant) := by
  obtain ⟨location, content, modified, mode, found⟩ := (isFile_iff _ _).1 file
  exact ⟨modified, (modified?_eq_ok_some_iff _ _ _).2 ⟨location, _, found, rfl⟩⟩

theorem mem_definitions_iff
    (found : workspace.definitionsOf roots namespaces = .ok definitions) {definition : Definition} :
    definition ∈ definitions ↔
      definition.defined ∈ namespaces ∧ definition.root ∈ roots ∧
        definition.source = definition.root.join definition.defined.sourcePath ∧
          workspace.isFile definition.source = true := by
  obtain ⟨-, rfl⟩ := definitionsOf_eq_ok_iff.1 found
  rw [List.mem_flatMap]
  simp only [mem_sourcesOf_iff]
  constructor
  · rintro ⟨wanted, member, rfl, below, isSource, file⟩
    exact ⟨member, below, isSource, by rw [isSource]; exact file⟩
  · rintro ⟨member, below, isSource, file⟩
    exact ⟨definition.defined, member, rfl, below, isSource, by rw [← isSource]; exact file⟩

theorem needsBatch_iff_not_artifactsUpToDate
    (found : workspace.definitionsOf roots namespaces = .ok definitions) :
    workspace.NeedsBatch roots target namespaces ↔
      ¬ workspace.ArtifactsUpToDate target definitions namespaces := by
  constructor
  · rintro ⟨wanted, member, ⟨root, below, file, stale⟩ | ⟨sourceless, missing⟩⟩ upToDate
    · obtain ⟨changed, known⟩ := modified?_of_isFile file
      have isDefinition : (⟨wanted, root, root.join wanted.sourcePath⟩ : Definition) ∈ definitions :=
        (mem_definitions_iff found).2 ⟨member, below, rfl, file⟩
      have fresh := upToDate.fresh _ isDefinition
      exact (isStale_iff_not_isFresh known).1 stale fresh
    · have undefined : ∀ definition ∈ definitions, definition.defined ≠ wanted := by
        rintro definition isDefinition rfl
        obtain ⟨-, below, isSource, file⟩ := (mem_definitions_iff found).1 isDefinition
        rw [isSource, sourceless definition.root below] at file
        cases file
      rw [upToDate.present wanted member undefined] at missing
      cases missing
  · intro notUpToDate
    by_contra unneeded
    refine notUpToDate ⟨fun definition isDefinition => ?_, fun wanted member undefined => ?_⟩
    · obtain ⟨member, below, isSource, file⟩ := (mem_definitions_iff found).1 isDefinition
      obtain ⟨changed, known⟩ := modified?_of_isFile file
      by_contra notFresh
      have stale := (isStale_iff_not_isFresh known).2 notFresh
      rw [isSource] at file stale
      exact unneeded
        ⟨definition.defined, member, Or.inl ⟨definition.root, below, file, stale⟩⟩
    · by_contra missing
      refine unneeded ⟨wanted, member, Or.inr ⟨fun root below => ?_, by simpa using missing⟩⟩
      by_contra file
      have isDefinition :
          (⟨wanted, root, root.join wanted.sourcePath⟩ : Definition) ∈ definitions := by
        rw [mem_definitions_iff found]
        dsimp only
        exact ⟨member, below, rfl, by simpa using file⟩
      exact undefined _ isDefinition rfl

theorem isBatchDue_iff_needsBatch
    {due : Bool} (found : workspace.definitionsOf roots namespaces = .ok definitions)
    (decided : workspace.isBatchDue target definitions namespaces = .ok due) :
    due = true ↔ workspace.NeedsBatch roots target namespaces := by
  rw [needsBatch_iff_not_artifactsUpToDate found, ← isBatchDue_eq_ok_false_iff, decided]
  simp

end Workspace

/-! ## Telling batches from other commands -/

namespace Batch

/-- A command is that of a batch. -/
def IsCommand (command : Command) : Prop :=
  ∃ java namespaces classpath target, command = Batch.command java namespaces classpath target

theorem isCommand_command (java : Path) (namespaces : List Namespace) (classpath : Classpath)
    (target : Path) : IsCommand (command java namespaces classpath target) :=
  ⟨java, namespaces, classpath, target, rfl⟩

theorem take_outputArgument (target : Path) :
    (outputArgument target).toList.take 2 = ['-', 'D'] := by
  have marker : "-Dclojure.compile.path=".toList.take 2 = ['-', 'D'] := by
    decide +kernel
  have length : 2 ≤ "-Dclojure.compile.path=".toList.length := by
    decide +kernel
  unfold outputArgument
  rw [String.toList_append, List.take_append_of_le_length length]
  exact marker

theorem outputArgument_ne (target : Path) : outputArgument target ≠ "-d" := by
  intro same
  have begins := take_outputArgument target
  rw [same] at begins
  exact absurd begins (by decide +kernel)

theorem arguments_command (java : Path) (namespaces : List Namespace) (classpath : Classpath)
    (target : Path) :
    (command java namespaces classpath target).arguments[2]? = some (outputArgument target) :=
  rfl

/-- Secondary commands name their output where a batch has an argument of another kind. -/
theorem not_isCommand_of_outputs
    {other : Command} (outputs : other.arguments[2]? = some "-d") : ¬ IsCommand other := by
  rintro ⟨java, namespaces, classpath, target, same⟩
  rw [same, arguments_command, Option.some.injEq] at outputs
  exact outputArgument_ne target outputs

end Batch

theorem CompileUnit.outputs_of_mem_commandsAs
    {unit : CompileUnit} {language : Language} {options javacOptions : CompilerOptions}
    {command : Command} (member : command ∈ unit.commandsAs language options javacOptions) :
    command.arguments[2]? = some "-d" := by
  cases language with
  | java =>
      rw [commandsAs, List.mem_singleton] at member
      rw [member]
      rfl
  | groovy =>
      rw [commandsAs, List.mem_singleton] at member
      rw [member]
      rfl
  | scala =>
      rw [commandsAs, List.mem_cons] at member
      rcases member with rfl | onward
      · rfl
      · split at onward
        · cases onward
        · rw [List.mem_singleton.1 onward]
          rfl

namespace Build

open Workspace

variable {tools : Tools} {plan : Plan} {options : BuildOptions}
variable {sources : List Path} {target : Path} {dependencies : List Dependency}
variable {workspace : Workspace} {planned : Progress}

/-! ## Commands other than the batch -/

/-- Secondary compilers run no batch, and do not take back what has been run. -/
def RunNoBatch (compilers : Language → SecondaryCompiler) : Prop :=
  ∀ unit, RunsOnly (fun command => ¬ Batch.IsCommand command) (compileUnit compilers unit)

theorem runNoBatch_compilerPrograms (runner : Runner) (settings : CompileSettings) :
    RunNoBatch (compilerPrograms runner settings) := by
  intro unit progress
  rw [compileUnit_eq]
  have conducted := conducted_inTurn runner
    (unit.commandsAs unit.language (settings.optionsFor unit.language) settings.javac) progress
  refine ⟨_, conducted.commands, fun command member => ?_⟩
  have planned := (commands_inTurn _ _ _ _).subset member
  exact Batch.not_isCommand_of_outputs (CompileUnit.outputs_of_mem_commandsAs planned)

/-- What a build with a plan runs: the batch on its occasion, and then no other one. -/
theorem commands_of_plan
    (none : RunNoBatch tools.compilers)
    (planning : (makePlan tools sources target dependencies options).on workspace =
      (.ok plan, planned)) :
    ∃ others,
      ((compile tools sources target dependencies options).on workspace).2.commands =
          (batchOccasions tools.toolchain.java plan planned).map Occasion.command ++ others ∧
        ∀ command ∈ others, ¬ Batch.IsCommand command := by
  obtain ⟨-, -, noCommands⟩ :=
    (reads_makePlan tools sources target dependencies options).of_after_eq_ok planning
  have begun : planned.commands = [] := noCommands
  have filled := (conducted_fillTarget tools plan planned).commands
  rw [begun, List.nil_append] at filled
  rw [on_eq_after, compile_eq, after_bind_of_ok planning, after_bind]
  cases filling : (fillTarget tools plan).after planned with
  | mk outcome later =>
      rw [filling] at filled
      cases outcome with
      | error failure =>
          exact ⟨[], by rw [List.append_nil]; exact filled, by simp⟩
      | ok value =>
          obtain ⟨others, added, noBatch⟩ :=
            RunsOnly.stepwise.finish none options plan value later
          exact ⟨others, by rw [added, filled], noBatch⟩

/-! ## The decision -/

/-- Whether the target can be made. -/
def CanMake (workspace : Workspace) (target : Path) : Prop :=
  ∃ ready, workspace.makeDirectories target = (.ok (), ready)

theorem batchOccasions_of_needed {due : Bool}
    (decided : planned.workspace.isBatchDue plan.target plan.definitions plan.namespaces = .ok due)
    (isDue : due = true) (nonempty : plan.namespaces ≠ [])
    (canMake : CanMake planned.workspace plan.target) (java : Path) :
    (batchOccasions java plan planned).map Occasion.command =
      [Batch.command java plan.namespaces plan.classpath plan.target] := by
  subst isDue
  obtain ⟨ready, made⟩ := canMake
  have listed : plan.namespaces.isEmpty = false := by simpa using nonempty
  simp [batchOccasions, decided, listed, made]

theorem batchOccasions_of_unneeded {due : Bool}
    (decided : planned.workspace.isBatchDue plan.target plan.definitions plan.namespaces = .ok due)
    (unneeded : ¬ (due = true ∧ CanMake planned.workspace plan.target)) (java : Path) :
    batchOccasions java plan planned = [] := by
  cases due with
  | false =>
      simp [batchOccasions, decided]
  | true =>
      cases made : planned.workspace.makeDirectories plan.target with
      | mk outcome ready =>
          cases outcome with
          | ok value =>
              exact absurd ⟨rfl, ready, made⟩ unneeded
          | error failure =>
              simp [batchOccasions, decided, made]

theorem isDue_iff_needsBatch {due : Bool}
    (planning : (makePlan tools sources target dependencies options).on workspace =
      (.ok plan, planned))
    (decided : workspace.isBatchDue plan.target plan.definitions plan.namespaces = .ok due) :
    due = true ↔ workspace.NeedsBatch plan.sources.roots plan.target plan.namespaces := by
  obtain ⟨read, -, -⟩ :=
    (reads_makePlan tools sources target dependencies options).of_after_eq_ok planning
  obtain ⟨-, -, -, defined, -⟩ := readPlan_eq_ok_iff.1 read
  exact isBatchDue_iff_needsBatch defined decided

/-- A build that gets to the decision about the batch runs it if and only if the artifact of some
namespace is missing or older than its source and the target can be made.  It is then the first
command and the only batch, it is given all namespaces in order, and the target is on its classpath.
-/
theorem batch_is_run_iff_needed
    {due : Bool} (none : RunNoBatch tools.compilers)
    (planning : (makePlan tools sources target dependencies options).on workspace =
      (.ok plan, planned))
    (decided : workspace.isBatchDue plan.target plan.definitions plan.namespaces = .ok due) :
    let result := (compile tools sources target dependencies options).on workspace
    let needed := workspace.NeedsBatch plan.sources.roots plan.target plan.namespaces ∧
      CanMake workspace plan.target
    ((∃ command ∈ result.2.commands, Batch.IsCommand command) ↔ needed) ∧
      (needed → ∃ others,
        result.2.commands =
            ⟨tools.toolchain.java.text,
              ["-classpath", (plan.classpath.push plan.target).join,
                  "-Dclojure.compile.path=" ++ plan.target.text, "clojure.lang.Compile"] ++
                plan.namespaces.map fun wanted => Text.encode wanted.name⟩ :: others ∧
          ∀ command ∈ others, ¬ Batch.IsCommand command) ∧
        (plan.namespaces = [] → ∀ command ∈ result.2.commands, ¬ Batch.IsCommand command) := by
  intro result needed
  obtain ⟨others, commands, noBatch⟩ := commands_of_plan none planning
  have reads := reads_makePlan tools sources target dependencies options
  obtain ⟨-, sameWorkspace, -⟩ := reads.of_after_eq_ok planning
  have unchanged : planned.workspace = workspace := sameWorkspace
  have isNeeded := isDue_iff_needsBatch planning decided
  rw [← unchanged] at decided
  have run : needed → result.2.commands =
      Batch.command tools.toolchain.java plan.namespaces plan.classpath plan.target :: others := by
    rintro ⟨needs, canMake⟩
    have nonempty : plan.namespaces ≠ [] := by
      obtain ⟨wanted, member, -⟩ := needs
      exact List.ne_nil_of_mem member
    rw [← unchanged] at canMake
    rw [commands, batchOccasions_of_needed decided (isNeeded.2 needs) nonempty canMake]
    rfl
  have idle : ¬ needed → ∀ command ∈ result.2.commands, ¬ Batch.IsCommand command := by
    intro unneeded
    have nothing : ¬ (due = true ∧ CanMake planned.workspace plan.target) := by
      rintro ⟨isDue, canMake⟩
      rw [unchanged] at canMake
      exact unneeded ⟨isNeeded.1 isDue, canMake⟩
    rw [commands, batchOccasions_of_unneeded decided nothing]
    exact noBatch
  refine ⟨⟨?_, fun isNeeded => ?_⟩, fun isNeeded => ⟨others, run isNeeded, noBatch⟩, ?_⟩
  · rintro ⟨command, member, isCommand⟩
    by_contra unneeded
    exact idle unneeded command member isCommand
  · refine ⟨_, by rw [run isNeeded]; exact List.mem_cons_self, ?_⟩
    exact Batch.isCommand_command _ _ _ _
  · intro empty
    refine idle ?_
    rintro ⟨⟨wanted, member, -⟩, -⟩
    rw [empty] at member
    cases member

/-! ## Two namespaces, and a file at the target -/

/-- Two namespaces with artifacts, one older than its source and the other one just as old. -/
def editedSource : Workspace :=
  ⟨⟨[([], .directory ⟨0⟩), (["src"], .directory ⟨0⟩), (["src", "a.clj"], .file [] ⟨2⟩ 420),
      (["src", "b.clj"], .file [] ⟨1⟩ 420), (["out"], .directory ⟨0⟩),
      (["out", "a__init.class"], .file [] ⟨1⟩ 420),
      (["out", "b__init.class"], .file [] ⟨1⟩ 420)]⟩, [], ⟨"/home"⟩, ⟨3⟩, []⟩

/-- Both namespaces are compiled although only one of them has been edited. -/
theorem edited_namespace_is_compiled_with_others :
    ∃ plan planned,
      (makePlan (toolsOf idleRunner) [⟨"src"⟩] ⟨"out"⟩ [] ⟨none, .firstMatch⟩).on editedSource =
          (.ok plan, planned) ∧
        editedSource.isBatchDue plan.target plan.definitions plan.namespaces = .ok true ∧
          ∃ others,
            ((compile (toolsOf idleRunner) [⟨"src"⟩] ⟨"out"⟩ [] ⟨none, .firstMatch⟩).on
                editedSource).2.commands =
              ⟨"java", ["-classpath", "/src:/clj.jar:/out", "-Dclojure.compile.path=/out",
                "clojure.lang.Compile", "a", "b"]⟩ :: others ∧
              ∀ command ∈ others, ¬ Batch.IsCommand command := by
  have decision :
      ((makePlan (toolsOf idleRunner) [⟨"src"⟩] ⟨"out"⟩ [] ⟨none, .firstMatch⟩).on
          editedSource).1.toOption.map (fun plan =>
        (plan.target, (plan.classpath.push plan.target).join,
          plan.namespaces.map (fun wanted => Text.encode wanted.name),
          editedSource.isBatchDue plan.target plan.definitions plan.namespaces)) =
        some (⟨"/out"⟩, "/src:/clj.jar:/out", ["a", "b"], .ok true) := by
    decide +kernel
  cases planning :
      (makePlan (toolsOf idleRunner) [⟨"src"⟩] ⟨"out"⟩ [] ⟨none, .firstMatch⟩).on
        editedSource with
  | mk outcome planned =>
      rw [planning] at decision
      cases outcome with
      | error failure =>
          cases decision
      | ok plan =>
          simp only [Except.toOption, Option.map_some, Option.some.injEq, Prod.mk.injEq] at decision
          obtain ⟨isTarget, isClasspath, names, decided⟩ := decision
          have none : RunNoBatch (toolsOf idleRunner).compilers :=
            runNoBatch_compilerPrograms idleRunner CompileSettings.default
          have needs := (isDue_iff_needsBatch planning decided).1 rfl
          have canMake : CanMake editedSource plan.target := by
            rw [isTarget]
            exact ⟨editedSource, by decide +kernel⟩
          obtain ⟨-, runs, -⟩ := batch_is_run_iff_needed none planning decided
          obtain ⟨others, commands, noBatch⟩ := runs ⟨needs, canMake⟩
          refine ⟨plan, planned, rfl, decided, others, ?_, noBatch⟩
          have option : "-Dclojure.compile.path=" ++ "/out" = "-Dclojure.compile.path=/out" := by
            decide +kernel
          rw [commands, isClasspath, names, isTarget, option]
          exact rfl

/-- A file where the target should be. -/
def blockedTarget : Workspace :=
  ⟨⟨[([], .directory ⟨0⟩), (["out"], .file [] ⟨0⟩ 420)]⟩, [], ⟨"/home"⟩, ⟨0⟩, []⟩

/-- A build for a namespace without a source, into the place where the file is. -/
def blockedOptions : BuildOptions :=
  ⟨some ["ghost"], .firstMatch⟩

/-- A build that gets to the decision runs the batch if and only if it is needed. -/
def AlwaysRunWhenNeeded : Prop :=
  ∀ (tools : Tools) (sources : List Path) (target : Path) (dependencies : List Dependency)
      (options : BuildOptions) (workspace : Workspace) (plan : Plan) (planned : Progress)
      (due : Bool),
    RunNoBatch tools.compilers →
      (makePlan tools sources target dependencies options).on workspace = (.ok plan, planned) →
        workspace.isBatchDue plan.target plan.definitions plan.namespaces = .ok due →
          ((∃ command ∈
              ((compile tools sources target dependencies options).on workspace).2.commands,
              Batch.IsCommand command) ↔
            workspace.NeedsBatch plan.sources.roots plan.target plan.namespaces)

/-- Where the target cannot be made the batch is not run, however much it is needed. -/
theorem needed_batch_is_not_always_run : ¬ AlwaysRunWhenNeeded := by
  intro always
  have decision :
      ((makePlan (toolsOf idleRunner) [] ⟨"out"⟩ [] blockedOptions).on
          blockedTarget).1.toOption.map (fun plan =>
        blockedTarget.isBatchDue plan.target plan.definitions plan.namespaces) =
        some (.ok true) := by
    decide +kernel
  have nothing :
      ((compile (toolsOf idleRunner) [] ⟨"out"⟩ [] blockedOptions).on
        blockedTarget).2.commands = [] := by
    decide +kernel
  cases planning :
      (makePlan (toolsOf idleRunner) [] ⟨"out"⟩ [] blockedOptions).on blockedTarget with
  | mk outcome planned =>
      rw [planning] at decision
      cases outcome with
      | error failure =>
          cases decision
      | ok plan =>
          have decided := Option.some.inj decision
          have needs := (isDue_iff_needsBatch planning decided).1 rfl
          have none : RunNoBatch (toolsOf idleRunner).compilers :=
            runNoBatch_compilerPrograms idleRunner CompileSettings.default
          obtain ⟨command, member, -⟩ :=
            (always _ _ _ _ _ _ _ _ _ none planning decided).2 needs
          rw [nothing] at member
          cases member

end Build

end ClojureBuild
