import ClojureBuild.Proofs.Build.BatchDecision
import ClojureBuild.Proofs.Build.FailStop
import ClojureBuild.Proofs.Build.SearchOrder

/-!
# The classpaths of the commands

Every command of a build is given the classpath of its plan.  The batch and all secondary commands
but the first one also see the target, which then comes after the runtime archive unless it was an
entry before.  The target is added in two places, for the units after the first one and for the Java
files that follow `scalac`; adding it twice is adding it once, so the two places agree.
-/

namespace ClojureBuild

namespace CompileUnit

variable {classpath : Classpath} {target : Path} {unit pass : CompileUnit}
variable {units others : List CompileUnit}

/-- A unit is compiled against a classpath and to a target. -/
structure Uses (classpath : Classpath) (target : Path) (unit : CompileUnit) : Prop where
  classpath : unit.classpath = classpath
  target : unit.target = target

/-- Units are compiled to a target, the first one against a classpath and the others also against
what the target holds. -/
structure Threaded (classpath : Classpath) (target : Path) (units : List CompileUnit) : Prop where
  first : ∀ unit ∈ units.head?, unit.Uses classpath target
  later : ∀ unit ∈ units.tail, unit.Uses (classpath.push target) target

/-- The passes for a unit are the first one and those that also see the target. -/
theorem exists_passes_eq_cons (unit : CompileUnit) :
    ∃ first rest, unit.passes = first :: rest ∧ first.Uses unit.classpath unit.target ∧
      ∀ pass ∈ rest, pass.Uses (unit.classpath.push unit.target) unit.target := by
  unfold passes
  split
  · exact ⟨_, [], rfl, ⟨rfl, rfl⟩, by simp⟩
  · exact ⟨_, [], rfl, ⟨rfl, rfl⟩, by simp⟩
  · refine ⟨_, _, rfl, ⟨rfl, rfl⟩, ?_⟩
    intro pass member
    split at member
    · cases member
    · rw [List.mem_singleton.1 member]
      exact ⟨rfl, rfl⟩

theorem uses_of_mem_passes_of_pushed
    (uses : unit.Uses (classpath.push target) target) (member : pass ∈ unit.passes) :
    pass.Uses (classpath.push target) target := by
  obtain ⟨first, rest, split, firstUses, restUse⟩ := exists_passes_eq_cons unit
  rw [uses.classpath, uses.target] at firstUses restUse
  rw [Classpath.push_push] at restUse
  rw [split] at member
  cases List.mem_cons.1 member with
  | inl isFirst =>
      rw [isFirst]
      exact firstUses
  | inr inRest =>
      exact restUse pass inRest

/-- Threaded units have threaded passes. -/
theorem Threaded.passes (threaded : Threaded classpath target units) :
    Threaded classpath target (units.flatMap CompileUnit.passes) := by
  cases units with
  | nil =>
      exact ⟨by simp, by simp⟩
  | cons unit others =>
      obtain ⟨first, rest, split, firstUses, restUse⟩ := exists_passes_eq_cons unit
      have unitUses := threaded.first unit rfl
      rw [unitUses.classpath, unitUses.target] at firstUses restUse
      rw [List.flatMap_cons, split, List.cons_append]
      constructor
      · intro pass isFirst
        cases isFirst
        exact firstUses
      · intro pass member
        cases List.mem_append.1 member with
        | inl inRest =>
            exact restUse pass inRest
        | inr behind =>
            obtain ⟨other, inOthers, ofOther⟩ := List.mem_flatMap.1 behind
            exact uses_of_mem_passes_of_pushed (threaded.later other inOthers) ofOther

end CompileUnit

/-- A command is given a classpath and told to write to a target. -/
def Command.Gets (classpath : Classpath) (target : Path) (command : Command) : Prop :=
  ["-classpath", classpath.join, "-d", target.text] <+: command.arguments

namespace Build

open CompileUnit

variable {settings : CompileSettings} {options : BuildOptions} {plan : Plan}
variable {classpath : Classpath} {target : Path} {workspace : Workspace} {commands : List Command}

theorem threaded_unitsFor (classpath : Classpath) (target : Path) (shares : List Share) :
    Threaded classpath target (unitsFor classpath target shares) := by
  cases shares with
  | nil =>
      exact ⟨by simp [unitsFor], by simp [unitsFor]⟩
  | cons first rest =>
      constructor
      · intro unit isFirst
        cases isFirst
        exact ⟨rfl, rfl⟩
      · intro unit member
        obtain ⟨share, -, rfl⟩ := List.mem_map.1 member
        exact ⟨rfl, rfl⟩

theorem gets_of_uses {pass : CompileUnit} (uses : pass.Uses classpath target) :
    (pass.command settings).Gets classpath target := by
  rw [Command.Gets, arguments_command, uses.classpath, uses.target, List.append_assoc]
  exact List.prefix_append _ _

/-- The commands for the shares of a plan, as far as they are run. -/
theorem gets_of_prefix_dueCommands
    (run : commands <+: dueCommands settings options plan workspace) :
    (∀ command ∈ commands.head?, command.Gets plan.classpath plan.target) ∧
      ∀ command ∈ commands.tail,
        command.Gets (plan.classpath.push plan.target) plan.target := by
  cases commands with
  | nil =>
      exact ⟨by simp, by simp⟩
  | cons command rest =>
      obtain ⟨behind, split⟩ := run
      unfold dueCommands at split
      cases listed :
          (workspace.distinctFiles (plan.sources.roots ++ plan.sources.files)).1 with
      | error failure =>
          simp [listed] at split
      | ok files =>
          simp only [listed, flatMap_commands_eq] at split
          have threaded :=
            (threaded_unitsFor plan.classpath plan.target (options.policy.shares files)).passes
          -- the commands belong to the passes one by one
          cases passing :
              (unitsFor plan.classpath plan.target (options.policy.shares files)).flatMap
                passes with
          | nil =>
              simp [passing] at split
          | cons first others =>
              rw [passing] at split threaded
              rw [List.map_cons, List.cons_append, List.cons.injEq] at split
              constructor
              · intro other isFirst
                cases isFirst
                rw [split.1]
                exact gets_of_uses (threaded.first first rfl)
              · intro other member
                have inOthers : other ∈ others.map (CompileUnit.command settings) := by
                  rw [← split.2]
                  exact List.mem_append_left behind member
                obtain ⟨pass, inPasses, rfl⟩ := List.mem_map.1 inOthers
                exact gets_of_uses (threaded.later pass inPasses)

/-- A classpath ends in the runtime archive and is extended by a target: the target comes after the
archive, unless it is an entry already, and neither classpath has it twice. -/
structure ExtendedBy (classpath : Classpath) (last target : Path) : Prop where
  archive : classpath.entries.getLast? = some last
  present : classpath.contains target = true → classpath.push target = classpath
  absent : classpath.contains target = false →
    (classpath.push target).entries = classpath.entries ++ [target]
  atMostOnce : classpath.entries.countP target.same ≤ 1
  once : (classpath.push target).entries.countP target.same = 1

theorem extendedBy_endingIn (classpath : Classpath) (last target : Path) :
    ExtendedBy (classpath.endingIn last) last target where
  archive := by rw [Classpath.entries_endingIn, List.getLast?_concat]
  present := Classpath.push_of_contains
  absent := Classpath.entries_push_of_absent
  atMostOnce := Classpath.countP_same_le_one _ target
  once := by
    have atMostOnce :=
      Classpath.countP_same_le_one ((classpath.endingIn last).push target) target
    have contained := Classpath.contains_push_self (classpath.endingIn last) target
    have atLeastOnce :
        0 < ((classpath.endingIn last).push target).entries.countP target.same := by
      rw [Classpath.contains_eq] at contained
      obtain ⟨entry, member, same⟩ := List.any_eq_true.1 contained
      rw [List.countP_pos_iff]
      exact ⟨entry, member, Path.same_symm same⟩
    omega

/-- The commands of a build with the plan are at most one batch, which sees the classpath with the
target, and secondary commands, of which the first one sees the classpath and all later ones also
the target. -/
structure ClasspathsPassedOn (plan : Plan) (batch secondary : List Command) : Prop where
  single : batch.length ≤ 1
  batch : ∀ command ∈ batch, Batch.IsCommand command ∧
    ["-classpath", (plan.classpath.push plan.target).join] <+: command.arguments
  notBatch : ∀ command ∈ secondary, ¬ Batch.IsCommand command
  first : ∀ command ∈ secondary.head?, command.Gets plan.classpath plan.target
  later : ∀ command ∈ secondary.tail,
    command.Gets (plan.classpath.push plan.target) plan.target

theorem not_isCommand_of_gets {command : Command} (gets : command.Gets classpath target) :
    ¬ Batch.IsCommand command := by
  apply Batch.not_isCommand_of_outputs
  obtain ⟨rest, split⟩ := gets
  rw [← split]
  rfl

theorem classpathsPassedOn_of_prefixes {java : Path} {batch secondary : List Command}
    (inBatch : batch <+: [Batch.command java plan.namespaces plan.classpath plan.target])
    (run : secondary <+: dueCommands settings options plan workspace) :
    ClasspathsPassedOn plan batch secondary := by
  obtain ⟨first, later⟩ := gets_of_prefix_dueCommands run
  refine ⟨inBatch.length_le, ?_, ?_, first, later⟩
  · intro command member
    rw [List.mem_singleton.1 (inBatch.subset member)]
    exact ⟨Batch.isCommand_command _ _ _ _, ⟨_, rfl⟩⟩
  · intro command member
    cases secondary with
    | nil =>
        cases member
    | cons head rest =>
        cases List.mem_cons.1 member with
        | inl isFirst =>
            rw [isFirst]
            exact not_isCommand_of_gets (first head rfl)
        | inr inRest =>
            exact not_isCommand_of_gets (later command inRest)

/-- A build that makes no plan runs nothing.  Otherwise its commands are given the classpath of the
plan, which is the composed one, and the target of the plan, whether the build succeeds or fails: the
first secondary command sees the classpath alone, the batch and every later command also the target,
after the runtime archive unless it is an entry anyway.  The report tells of the composed classpath. -/
theorem later_commands_see_target
    (toolchain : Toolchain) (runner : Runner) (hindrances : Hindrances) (resolver : Resolver)
    (settings : CompileSettings) (sources : List Path) (target : Path)
    (dependencies : List Dependency) (options : BuildOptions) (workspace : Workspace) :
    let tools : Tools := ⟨toolchain, runner, hindrances, resolver, compilerPrograms runner settings⟩
    let result := (compile tools sources target dependencies options).on workspace
    match (makePlan tools sources target dependencies options).on workspace with
    | (.error failure, _) => result.1 = .error failure ∧ result.2.commands = []
    | (.ok plan, _) =>
        workspace.absolute target = .ok plan.target ∧
          ((searchOrder resolver dependencies plan.sources.roots toolchain.runtimeJar).on
              workspace).1 = .ok plan.classpath ∧
            (∃ archive, workspace.absolute toolchain.runtimeJar = .ok archive ∧
              ExtendedBy plan.classpath archive plan.target) ∧
              (∃ batch secondary, result.2.commands = batch ++ secondary ∧
                ClasspathsPassedOn plan batch secondary) ∧
                ∀ report, result.1 = .ok report → report.classpath = plan.classpath := by
  intro tools result
  have programs : tools.compilers = compilerPrograms tools.runner settings := rfl
  have reads := reads_makePlan tools sources target dependencies options
  obtain ⟨batch, secondary, course, stops⟩ :=
    exists_course programs sources target dependencies options workspace
  have commands : result.2.commands = (batch ++ secondary).map Occasion.command := stops.commands
  rw [List.map_append] at commands
  cases planning : (makePlan tools sources target dependencies options).on workspace with
  | mk outcome planned =>
      rw [planning] at course
      cases outcome with
      | error failure =>
          have stopped : result = (.error failure, planned) := by
            simp only [result, on_eq_after, compile_eq]
            exact after_bind_of_error planning
          cases course
          exact ⟨congrArg Prod.fst stopped, commands⟩
      | ok plan =>
          obtain ⟨read, -, -⟩ := reads.of_after_eq_ok planning
          obtain ⟨form, -, -, -, ordered⟩ := readPlan_eq_ok_iff.1 read
          obtain ⟨resolved, absoluteRoots, archive, gathered, isClasspath⟩ :=
            readOrder_eq_ok_iff.1 ordered
          refine ⟨form, ?_, ⟨archive, gathered.runtime, ?_⟩, ⟨_, _, commands, ?_⟩, ?_⟩
          · obtain ⟨notices, searched⟩ :=
              (reads_searchOrder resolver dependencies plan.sources.roots
                toolchain.runtimeJar).after_of_ok ordered
            exact congrArg Prod.fst searched
          · rw [isClasspath]
            exact extendedBy_endingIn _ archive plan.target
          · cases course with
            | unfilled filling =>
                exact classpathsPassedOn_of_prefixes (commands_batchOccasions _ plan planned)
                  (List.nil_prefix (l := dueCommands settings options plan workspace))
            | filled filling =>
                exact classpathsPassedOn_of_prefixes (commands_batchOccasions _ plan planned)
                  (commands_inTurn _ _ _ _)
          · intro report done
            have built : result = (.ok report, result.2) := Prod.ext done rfl
            obtain ⟨other, otherPlanned, filled, reached, replanned, -, finishing⟩ :=
              compile_eq_ok_iff.1 built
            rw [planning] at replanned
            cases replanned
            obtain ⟨files, notices, -, rfl, -⟩ := finish_eq_ok_iff.1 finishing
            rfl

end Build

end ClojureBuild
