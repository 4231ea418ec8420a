import ClojureBuild.Config
import ClojureBuild.Language.Commands
import ClojureBuild.Proofs.Shares
import Mathlib.Data.List.Nodup

/-!
# Files in commands

The commands for a unit hand its files to compilers, each after the options of this compiler.  Both
`scalac` and `javac` get the Java files of a Scala unit, but only `javac` writes classes for them, so
in the end every file that a policy covers is compiled to classes by one command and no other.
-/

namespace ClojureBuild

namespace Language

/-- The arguments that a compiler gets for its options. -/
def optionArguments (language : Language) (options : CompilerOptions) : List ByteText :=
  ((match language with
    | .scala => CompileUnit.scalacOptions options
    | .groovy => CompileUnit.groovycOptions options
    | .java => CompileUnit.javacOptions options) ++ options.other).map Text.encode

/-- Whether a compiler writes classes for a file that it gets: `scalac` does for Scala files only. -/
def emitsFor : Language → Path → Bool
  | .scala, file => Language.scala.owns file
  | _, _ => true

end Language

namespace Command

variable {settings : CompileSettings} {command : Command} {file : Path}

/-- The language whose compiler a command runs. -/
def language? (command : Command) : Option Language :=
  Language.byPriority.find? fun language => language.compiler == command.program

/-- What comes after the options of a compiler, which themselves come after the classpath and the
target with their flags. -/
def fileArguments (settings : CompileSettings) (command : Command) : List ByteText :=
  match command.language? with
  | some language =>
      command.arguments.drop (4 + (language.optionArguments (settings.optionsFor language)).length)
  | none => []

/-- Whether a command compiles a file to classes. -/
def emits (settings : CompileSettings) (file : Path) (command : Command) : Bool :=
  decide (file.text ∈ command.fileArguments settings) &&
    command.language?.any fun language => language.emitsFor file

end Command

namespace CompileUnit

variable {settings : CompileSettings} {unit pass : CompileUnit} {units : List CompileUnit}
variable {file : Path}

/-- The share of the files that a unit is made of. -/
def share (unit : CompileUnit) : Share :=
  ⟨unit.language, unit.files⟩

/-- The commands for a unit, in order. -/
def commands (settings : CompileSettings) (unit : CompileUnit) : List Command :=
  unit.commandsAs unit.language (settings.optionsFor unit.language) settings.javac

/-! ## Passes -/

/-- The command that hands all files of a unit to the compiler of its language. -/
def command (settings : CompileSettings) (pass : CompileUnit) : Command :=
  (pass.base pass.language.compiler).followedBy
    (pass.language.optionArguments (settings.optionsFor pass.language) ++ pass.files.map Path.text)

/-- The units that the compilers get for a unit, one after the other. -/
def passes (unit : CompileUnit) : List CompileUnit :=
  match unit.language with
  | .java => [{ unit with files := unit.javaFiles }]
  | .groovy => [unit]
  | .scala =>
      unit :: (if unit.javaFiles.isEmpty then [] else [{ unit.javaOnly with language := .java }])

theorem commands_eq (settings : CompileSettings) (unit : CompileUnit) :
    unit.commands settings = unit.passes.map (command settings) := by
  obtain ⟨language, files, classpath, target⟩ := unit
  cases language with
  | java =>
      rfl
  | groovy =>
      rfl
  | scala =>
      have javaFiles :
          (CompileUnit.mk .scala files classpath target).javaOnly.javaFiles =
            (CompileUnit.mk .scala files classpath target).javaFiles :=
        List.filter_filter.trans (by simp [javaFiles])
      rw [commands, passes, commandsAs]
      split
      · rfl
      · rw [javac, javaFiles]
        rfl

theorem flatMap_commands_eq (settings : CompileSettings) (units : List CompileUnit) :
    units.flatMap (commands settings) = (units.flatMap passes).map (command settings) := by
  rw [List.map_flatMap]
  exact List.flatMap_congr fun unit _ => commands_eq settings unit

@[simp]
theorem language?_command (settings : CompileSettings) (pass : CompileUnit) :
    (pass.command settings).language? = some pass.language := by
  obtain ⟨language, files, classpath, target⟩ := pass
  cases language <;> rfl

@[simp]
theorem fileArguments_command (settings : CompileSettings) (pass : CompileUnit) :
    (pass.command settings).fileArguments settings = pass.files.map Path.text := by
  rw [Command.fileArguments, language?_command]
  simp only [command, Command.followedBy, base]
  rw [← List.append_assoc]
  exact List.drop_left' (by simp; omega)

theorem arguments_command (settings : CompileSettings) (pass : CompileUnit) :
    (pass.command settings).arguments =
      ["-classpath", pass.classpath.join, "-d", pass.target.text] ++
        pass.language.optionArguments (settings.optionsFor pass.language) ++
          (pass.command settings).fileArguments settings := by
  rw [fileArguments_command, command, Command.followedBy, base, List.append_assoc]

/-- Whether the compiler of a unit's language writes classes for a file of the unit. -/
def emits (file : Path) (pass : CompileUnit) : Bool :=
  decide (file ∈ pass.files) && pass.language.emitsFor file

theorem emits_command (settings : CompileSettings) (file : Path) (pass : CompileUnit) :
    (pass.command settings).emits settings file = pass.emits file := by
  simp [Command.emits, emits, List.mem_map_of_injective Path.text_injective]

/-- A pass gets some files of the unit, in their order, that the compiler of its language accepts. -/
theorem of_mem_passes
    (accepted : ∀ file ∈ unit.files, unit.language.accepts file = true)
    (member : pass ∈ unit.passes) :
    pass.files.Sublist unit.files ∧ ∀ file ∈ pass.files, pass.language.accepts file = true := by
  have javaFile : ∀ file ∈ unit.javaFiles, Language.java.accepts file = true :=
    fun file inJava => Language.accepts_of_owns (List.mem_filter.1 inJava).2
  unfold passes at member
  split at member
  · next isJava =>
      rw [List.mem_singleton.1 member, isJava]
      exact ⟨List.filter_sublist, javaFile⟩
  · rw [List.mem_singleton.1 member]
    exact ⟨List.Sublist.refl unit.files, accepted⟩
  · rcases List.mem_cons.1 member with rfl | followUp
    · exact ⟨List.Sublist.refl _, accepted⟩
    · split at followUp
      · cases followUp
      · rw [List.mem_singleton.1 followUp]
        exact ⟨List.filter_sublist, javaFile⟩

/-! ## Classes are written once -/

theorem countP_emits_cons (file : Path) (pass : CompileUnit) (rest : List CompileUnit) :
    (pass :: rest).countP (emits file) =
      (if pass.emits file then 1 else 0) + rest.countP (emits file) := by
  rw [List.countP_cons, Nat.add_comm]

/-- After `scalac` the Java files, if there are any, are compiled to classes. -/
theorem countP_emits_followUp (unit : CompileUnit) (file : Path) :
    (if unit.javaFiles.isEmpty then [] else [{ unit.javaOnly with language := .java }]).countP
        (emits file) =
      if file ∈ unit.javaFiles then 1 else 0 := by
  split
  · next none =>
      simp [List.isEmpty_iff.1 none]
  · rw [countP_emits_cons]
    by_cases member : file ∈ unit.javaFiles <;>
      simp [emits, Language.emitsFor, javaOnly, member]

/-- Exactly one of the passes for a unit writes classes for a file of it. -/
theorem countP_emits_passes
    (accepted : ∀ file ∈ unit.files, unit.language.accepts file = true) (file : Path) :
    unit.passes.countP (emits file) = if file ∈ unit.files then 1 else 0 := by
  unfold passes
  split
  · next isJava =>
      rw [isJava] at accepted
      have allJava : unit.javaFiles = unit.files := by
        refine List.filter_eq_self.2 fun file member => ?_
        simpa using Language.owns_of_accepts (accepted file member)
      rw [countP_emits_cons, allJava]
      simp [emits, isJava, Language.emitsFor]
  · next isGroovy =>
      rw [countP_emits_cons]
      simp [emits, isGroovy, Language.emitsFor]
  · next isScala =>
      rw [isScala] at accepted
      rw [countP_emits_cons, countP_emits_followUp]
      by_cases member : file ∈ unit.files
      · have one : Language.scala.owns file = !Language.java.owns file := by
          cases isJava : Language.java.owns file with
          | true =>
              by_contra isScala
              have both : Language.scala.owns file = true := by
                simpa using isScala
              exact absurd (Language.eq_of_owns both isJava) (by decide)
          | false =>
              simpa [isJava] using Language.owns_of_accepts (accepted file member)
        simp only [emits, isScala, Language.emitsFor, javaFiles, List.mem_filter, member, one]
        cases Language.java.owns file <;> rfl
      · simp [emits, member, javaFiles]

/-- The units compile a file to classes as often as there are units that hold it. -/
theorem countP_emits_flatMap_passes
    (accepted : ∀ unit ∈ units, ∀ file ∈ unit.files, unit.language.accepts file = true)
    (file : Path) :
    (units.flatMap passes).countP (emits file) = Share.holders file (units.map share) := by
  induction units with
  | nil =>
      rfl
  | cons unit rest inductionHypothesis =>
      rw [List.flatMap_cons, List.countP_append,
        countP_emits_passes (accepted unit List.mem_cons_self),
        inductionHypothesis fun other member => accepted other (List.mem_cons_of_mem unit member),
        List.map_cons, Share.holders, Share.holders, List.countP_cons, Nat.add_comm]
      by_cases member : file ∈ unit.files <;> simp [share, member]

end CompileUnit

/-! ## The commands for a list of files -/

section Shared

open CompileUnit

variable {settings : CompileSettings} {policy : SecondaryPolicy} {files : List Path}
variable {units : List CompileUnit} {command : Command} {file : Path}

theorem of_mem_units
    (shared : units.map share = policy.shares files) {unit : CompileUnit} (member : unit ∈ units) :
    unit.files.Sublist files ∧
      ∀ file ∈ unit.files,
        unit.language.accepts file = true ∧ policy.covers files file = true := by
  have dealt : unit.share ∈ policy.shares files := by
    rw [← shared]
    exact List.mem_map_of_mem member
  exact SecondaryPolicy.of_mem_shares dealt

theorem exists_pass_of_mem_commands
    (shared : units.map share = policy.shares files)
    (member : command ∈ units.flatMap (commands settings)) :
    ∃ pass : CompileUnit,
      command = pass.command settings ∧ pass.files.Sublist files ∧
        ∀ file ∈ pass.files,
          pass.language.accepts file = true ∧ policy.covers files file = true := by
  rw [flatMap_commands_eq, List.mem_map] at member
  obtain ⟨pass, inPasses, rfl⟩ := member
  obtain ⟨unit, inUnits, ofUnit⟩ := List.mem_flatMap.1 inPasses
  obtain ⟨part, held⟩ := of_mem_units shared inUnits
  obtain ⟨inUnit, accepted⟩ := of_mem_passes (fun file member => (held file member).1) ofUnit
  exact ⟨pass, rfl, inUnit.trans part, fun file member =>
    ⟨accepted file member, (held file (inUnit.subset member)).2⟩⟩

theorem countP_emits_commands
    (shared : units.map share = policy.shares files)
    (member : file ∈ files) (covered : policy.covers files file = true) :
    (units.flatMap (commands settings)).countP (Command.emits settings file) = 1 := by
  have accepted : ∀ unit ∈ units, ∀ file ∈ unit.files, unit.language.accepts file = true :=
    fun unit inUnits file inUnit => ((of_mem_units shared inUnits).2 file inUnit).1
  rw [flatMap_commands_eq, List.countP_map]
  have same : Command.emits settings file ∘ command settings = emits file :=
    funext fun pass => emits_command settings file pass
  rw [same, countP_emits_flatMap_passes accepted, shared]
  exact SecondaryPolicy.holders_shares_eq_one member covered

/-- The compiler that writes classes for a file: that of its own language, or `groovyc` for a Java
file that is compiled along with Groovy files. -/
theorem program_of_emits
    {pass : CompileUnit} (accepted : ∀ file ∈ pass.files, pass.language.accepts file = true)
    {language : Language} (owned : language.owns file = true) (emits : pass.emits file = true) :
    pass.language = language ∨ (language = .java ∧ pass.language = .groovy) := by
  rw [CompileUnit.emits, Bool.and_eq_true, decide_eq_true_eq] at emits
  obtain ⟨member, writes⟩ := emits
  rcases Language.owns_of_accepts (accepted file member) with own | isJava
  · exact Or.inl (Language.eq_of_owns own owned)
  · have sameLanguage := Language.eq_of_owns owned isJava
    cases isPass : pass.language with
    | java => exact Or.inl sameLanguage.symm
    | groovy => exact Or.inr ⟨sameLanguage, rfl⟩
    | scala =>
        rw [isPass] at writes
        exact absurd (Language.eq_of_owns writes isJava) (by decide)

/-- Of some commands exactly one compiles a file to classes, which it gets once: `scalac` a Scala
file, `groovyc` a Groovy file, and `javac` or `groovyc` a Java file. -/
structure CompiledOnce (settings : CompileSettings) (commands : List Command) (file : Path) :
    Prop where
  once : commands.countP (Command.emits settings file) = 1
  argument : ∀ command ∈ commands, command.emits settings file = true →
    (command.fileArguments settings).count file.text = 1
  scala : Language.scala.owns file = true →
    ∀ command ∈ commands, command.emits settings file = true → command.program = "scalac"
  groovy : Language.groovy.owns file = true →
    ∀ command ∈ commands, command.emits settings file = true → command.program = "groovyc"
  java : Language.java.owns file = true →
    ∀ command ∈ commands, command.emits settings file = true →
      command.program = "javac" ∨ command.program = "groovyc"

theorem compiledOnce
    (distinct : files.Nodup) (shared : units.map share = policy.shares files)
    (member : file ∈ files) (covered : policy.covers files file = true) :
    CompiledOnce settings (units.flatMap (commands settings)) file := by
  have writer {language : Language} (owned : language.owns file = true) {command : Command}
      (inCommands : command ∈ units.flatMap (commands settings))
      (emits : command.emits settings file = true) :
      command.program = language.compiler ∨ (language = .java ∧ command.program = "groovyc") := by
    obtain ⟨pass, rfl, -, held⟩ := exists_pass_of_mem_commands shared inCommands
    rw [emits_command] at emits
    rcases program_of_emits (fun file inPass => (held file inPass).1) owned emits with
      same | ⟨isJava, isGroovy⟩
    · exact Or.inl (by rw [← same]; rfl)
    · exact Or.inr ⟨isJava, congrArg Language.compiler isGroovy⟩
  refine
    { once := countP_emits_commands shared member covered
      argument := ?_
      scala := ?_
      groovy := ?_
      java := ?_ }
  · intro command inCommands emits
    obtain ⟨pass, rfl, part, -⟩ := exists_pass_of_mem_commands shared inCommands
    rw [emits_command, CompileUnit.emits, Bool.and_eq_true, decide_eq_true_eq] at emits
    have texts : (pass.files.map Path.text).Nodup :=
      (distinct.sublist part).map Path.text_injective
    rw [fileArguments_command]
    exact List.count_eq_one_of_mem texts (List.mem_map_of_mem emits.1)
  · intro isScala command inCommands emits
    exact (writer isScala inCommands emits).resolve_right (by simp)
  · intro isGroovy command inCommands emits
    exact (writer isGroovy inCommands emits).resolve_right (by simp)
  · intro isJava command inCommands emits
    exact (writer isJava inCommands emits).imp_right And.right

/-- Among the commands for a list of files exactly one compiles each file that the policy covers to
classes, and no command gets any other file.  Every command gets its files in the order of the list,
and before them the classpath, the target and what the options of its own compiler ask for. -/
theorem secondary_files_are_compiled_once
    (settings : CompileSettings) (distinct : files.Nodup)
    (shared : units.map share = policy.shares files) :
    (∀ file ∈ files, policy.covers files file = true →
        CompiledOnce settings (units.flatMap (commands settings)) file) ∧
      (∀ file ∈ files, policy.covers files file = false →
        ∀ command ∈ units.flatMap (commands settings),
          file.text ∉ command.fileArguments settings) ∧
      ∀ command ∈ units.flatMap (commands settings),
        (command.fileArguments settings).Sublist (files.map Path.text) ∧
          ∃ (language : Language) (classpath target : String),
            command.program = language.compiler ∧
              command.arguments =
                ["-classpath", classpath, "-d", target] ++
                  language.optionArguments (settings.optionsFor language) ++
                    command.fileArguments settings := by
  refine ⟨fun file member covered => compiledOnce distinct shared member covered, ?_, ?_⟩
  · intro file _ uncovered command inCommands argument
    obtain ⟨pass, rfl, -, held⟩ := exists_pass_of_mem_commands shared inCommands
    rw [fileArguments_command, List.mem_map_of_injective Path.text_injective] at argument
    rw [(held file argument).2] at uncovered
    cases uncovered
  · intro command inCommands
    obtain ⟨pass, rfl, part, -⟩ := exists_pass_of_mem_commands shared inCommands
    refine ⟨?_, pass.language, _, _, rfl, arguments_command settings pass⟩
    rw [fileArguments_command]
    exact part.map Path.text

/-- A file of each secondary language and one of none. -/
def mixedFiles : List Path :=
  [⟨"A.java"⟩, ⟨"B.groovy"⟩, ⟨"C.scala"⟩, ⟨"d.txt"⟩]

/-- The units of these files when all languages are compiled. -/
def mixedUnits : List CompileUnit :=
  [⟨.scala, [⟨"A.java"⟩, ⟨"C.scala"⟩], .empty, ⟨"out"⟩⟩, ⟨.groovy, [⟨"B.groovy"⟩], .empty, ⟨"out"⟩⟩]

theorem java_file_is_compiled_beside_scala :
    mixedFiles.Nodup ∧ mixedUnits.map share = SecondaryPolicy.all.shares mixedFiles ∧
      CompiledOnce .default (mixedUnits.flatMap (commands .default)) ⟨"A.java"⟩ := by
  have distinct : mixedFiles.Nodup := by
    decide +kernel
  have shared : mixedUnits.map share = SecondaryPolicy.all.shares mixedFiles := by
    decide +kernel
  refine ⟨distinct, shared, ?_⟩
  exact (secondary_files_are_compiled_once .default distinct shared).1 ⟨"A.java"⟩
    List.mem_cons_self (by decide +kernel)

end Shared

end ClojureBuild
