import ClojureBuild.CommandLine.Run
import ClojureBuild.Proofs.Build.History
import ClojureBuild.Proofs.Build.OpenedSources

/-!
# Shadowed settings

A setting in a configuration file is shadowed by the variable of the environment or the argument that
has precedence over it, and a whole file is shadowed by the one that is read instead.  What is shadowed
makes no difference to what a run does: to the commands, the exit code, the standard output and the
workspace.
-/

namespace ClojureBuild

open Workspace

/-- The policy that the environment sets, if it holds a valid one. -/
def Environment.policy? (environment : Environment) : Option SecondaryPolicy :=
  (environment.value? "CLJC_SECONDARY_POLICY").bind fun text =>
    SecondaryPolicy.ofValue? (Text.toLower (Text.trim text))

/-- Two environments are the same, but for the policy if a switch shadows it. -/
def Environment.SameUnlessShadowed (allSecondary : Bool) (first second : Environment) : Prop :=
  ∀ name, (name = "CLJC_SECONDARY_POLICY" → allSecondary = false) →
    first.lookup name = second.lookup name

/-- Two configurations are the same, but for the settings that the environment or an argument
shadows. -/
structure Config.SameUnlessShadowed (environment : Environment) (sources : List Path)
    (target : Option Path) (libs : Option (List String)) (allSecondary : Bool)
    (one other : Config) : Prop where
  clojureHome : environment.value? "CLOJURE_HOME" = none →
    one.toolchain.clojureHome = other.toolchain.clojureHome
  runtimeJar : one.toolchain.runtimeJar = other.toolchain.runtimeJar
  java : environment.value? "CLJC_JAVA" = none → one.toolchain.java = other.toolchain.java
  repository : environment.value? "CLJC_REPOSITORY" = none →
    one.toolchain.repository = other.toolchain.repository
  libs : libs = none → one.compile.libs = other.compile.libs
  policy : allSecondary = false → environment.policy? = none →
    one.compile.secondaryPolicy = other.compile.secondaryPolicy
  javac : one.compile.javac = other.compile.javac
  scalac : one.compile.scalac = other.compile.scalac
  groovyc : one.compile.groovyc = other.compile.groovyc
  sources : sources = [] → one.project.sources = other.project.sources
  target : target = none → one.project.target = other.project.target
  dependencies : one.project.dependencies = other.project.dependencies

namespace Environment.SameUnlessShadowed

variable {allSecondary : Bool} {first second : Environment}

theorem value?_eq (same : SameUnlessShadowed allSecondary first second) {name : String}
    (other : name ≠ "CLJC_SECONDARY_POLICY") : first.value? name = second.value? name := by
  rw [value?, value?, same name fun isPolicy => absurd isPolicy other]

theorem policy (same : SameUnlessShadowed allSecondary first second)
    (unshadowed : allSecondary = false) :
    first.lookup "CLJC_SECONDARY_POLICY" = second.lookup "CLJC_SECONDARY_POLICY" :=
  same _ fun _ => unshadowed

end Environment.SameUnlessShadowed

/-! ## What the environment leaves -/

theorem policyFrom_eq (environment : Environment) (current : SecondaryPolicy) :
    (Config.policyFrom environment current).1 = environment.policy?.getD current := by
  rw [Config.policyFrom, Environment.policy?]
  cases environment.value? "CLJC_SECONDARY_POLICY" with
  | none =>
      rfl
  | some text =>
      dsimp only [Option.bind_some]
      cases SecondaryPolicy.ofValue? (Text.toLower (Text.trim text)) <;> rfl

theorem or_eq_of_unset {α : Type} {given one other : Option α}
    (whenUnset : given = none → one = other) : (given <|> one) = (given <|> other) := by
  cases given with
  | none =>
      exact whenUnset rfl
  | some value =>
      rfl

theorem getD_eq_of_unset {α : Type} {given : Option α} {one other : α}
    (whenUnset : given = none → one = other) : given.getD one = given.getD other := by
  cases given with
  | none =>
      exact whenUnset rfl
  | some value =>
      rfl

namespace Config.SameUnlessShadowed

variable {first second : Environment} {sources : List Path} {target : Option Path}
variable {libs : Option (List String)} {allSecondary : Bool} {one other : Config}

theorem refl (config : Config) :
    SameUnlessShadowed first sources target libs allSecondary config config where
  clojureHome _ := rfl
  runtimeJar := rfl
  java _ := rfl
  repository _ := rfl
  libs _ := rfl
  policy _ _ := rfl
  javac := rfl
  scalac := rfl
  groovyc := rfl
  sources _ := rfl
  target _ := rfl
  dependencies := rfl

variable (configs : SameUnlessShadowed first sources target libs allSecondary one other)
variable (environments : Environment.SameUnlessShadowed allSecondary first second)

include configs environments in
theorem toolchain_overridden :
    (one.overriddenBy first).1.toolchain = (other.overriddenBy second).1.toolchain := by
  have home := environments.value?_eq (show "CLOJURE_HOME" ≠ "CLJC_SECONDARY_POLICY" by decide)
  have java := environments.value?_eq (show "CLJC_JAVA" ≠ "CLJC_SECONDARY_POLICY" by decide)
  have repository :=
    environments.value?_eq (show "CLJC_REPOSITORY" ≠ "CLJC_SECONDARY_POLICY" by decide)
  simp only [overriddenBy, withPaths, ← home, ← java, ← repository, ToolchainSettings.mk.injEq]
  refine ⟨or_eq_of_unset fun unset => ?_, configs.runtimeJar, getD_eq_of_unset fun unset => ?_,
    or_eq_of_unset fun unset => ?_⟩
  · exact configs.clojureHome (Option.map_eq_none_iff.mp unset)
  · exact configs.java (Option.map_eq_none_iff.mp unset)
  · exact configs.repository (Option.map_eq_none_iff.mp unset)

include configs environments in
theorem optionsOf_overridden :
    CommandLine.optionsOf libs allSecondary (one.overriddenBy first).1 =
      CommandLine.optionsOf libs allSecondary (other.overriddenBy second).1 := by
  simp only [CommandLine.optionsOf, overriddenBy, BuildOptions.mk.injEq]
  refine ⟨or_eq_of_unset configs.libs, ?_⟩
  cases switched : allSecondary with
  | true =>
      rfl
  | false =>
      have samePolicy : first.policy? = second.policy? := by
        simp only [Environment.policy?, Environment.value?, environments.policy switched]
      simp only [Bool.false_eq_true, if_false, policyFrom_eq, ← samePolicy]
      exact getD_eq_of_unset (configs.policy switched)

/-- The compilers depend on the options for each language only. -/
theorem compilerPrograms_overridden
    (configs : SameUnlessShadowed first sources target libs allSecondary one other)
    (runner : Runner) :
    Build.compilerPrograms runner (one.overriddenBy first).1.compile =
      Build.compilerPrograms runner (other.overriddenBy second).1.compile := by
  funext language unit
  have sameOptions : (one.overriddenBy first).1.compile.optionsFor language =
      (other.overriddenBy second).1.compile.optionsFor language := by
    cases language with
    | java =>
        exact configs.javac
    | scala =>
        exact configs.scalac
    | groovy =>
        exact configs.groovyc
  have sameJava : (one.overriddenBy first).1.compile.javac =
      (other.overriddenBy second).1.compile.javac :=
    configs.javac
  rw [Build.compilerPrograms, Build.compilerPrograms, sameOptions, sameJava]

end Config.SameUnlessShadowed

namespace CommandLine

/-! ## The configuration that is read -/

/-- The configuration file that is read: the one that is asked for, or else the first one present. -/
def configurationFile? (environment : Environment) (asked : Option Path) (workspace : Workspace) :
    Option Path :=
  asked <|> (Config.candidates (some workspace.currentPath) environment workspace.home).find?
    workspace.isFile

/-- A workspace holds a configuration: the file that is read says it, or there is no file and it is the
default one. -/
def Holds (environment : Environment) (asked : Option Path) (workspace : Workspace)
    (config : Config) : Prop :=
  match configurationFile? environment asked workspace with
  | some file => ∃ content warnings, workspace.readText file = .ok content ∧
      Config.parse content file = .ok (config, warnings)
  | none => config = .default

variable {environment first second : Environment} {asked : Option Path} {one other : Workspace}
variable {workspace : Workspace} {config shadowed : Config} {hidden : List Location}
variable {allSecondary : Bool}

/-! ## Steps of a run -/

theorem run_bind {α β : Type} (first : Run α) (next : α → Run β) (progress : Progress) :
    (first >>= next).run.run progress =
      match first.run.run progress with
      | (.ok value, later) => (next value).run.run later
      | (.error trouble, later) => (.error trouble, later) := by
  have step : (first >>= next).run.run progress =
      (ExceptT.bindCont next (first.run.run progress).1).run (first.run.run progress).2 :=
    rfl
  rw [step]
  cases first.run.run progress with
  | mk outcome later =>
      cases outcome <;> rfl

theorem run_get (progress : Progress) :
    (get : Run Progress).run.run progress = (.ok progress, progress) :=
  rfl

theorem run_adapt {α ε : Type} (change : ε → Trouble) (first : ExceptT ε (StateM Progress) α)
    (progress : Progress) :
    (ExceptT.adapt change first).run.run progress =
      ((first.run.run progress).1.mapError change, (first.run.run progress).2) :=
  rfl

theorem run_ofBuild {α : Type} (build : Build α) (progress : Progress) :
    (ofBuild build).run.run progress =
      ((build.after progress).1.mapError Trouble.ofBuild, (build.after progress).2) :=
  rfl

theorem after_override (environment : Environment) (config : Config) (progress : Progress) :
    (Config.override environment config).after progress =
      (.ok (config.overriddenBy environment).1,
        { progress with notices := progress.notices ++ (config.overriddenBy environment).2 }) :=
  rfl

theorem after_ofFile {file : Path} {content : String} {warnings : List Config.Warning}
    (holds : workspace.readText file = .ok content)
    (parsed : Config.parse content file = .ok (config, warnings)) :
    (Config.ofFile file).after (Progress.start workspace) =
      (.ok (config, warnings), Progress.start workspace) := by
  rw [Config.ofFile, Build.after_bind_of_ok (Build.after_get _)]
  dsimp only [Progress.start]
  rw [holds, Build.ofFile, Build.after_bind_of_ok (Build.after_ofExcept_ok _ _ _), parsed,
    Build.after_ofExcept_ok]

/-- A configuration that is held is read and overridden by the environment. -/
theorem configure_of_holds (holds : Holds environment asked workspace config) :
    ∃ warnings notices,
      (configure environment asked).run.run (Progress.start workspace) =
        (.ok ((config.overriddenBy environment).1, warnings),
          { Progress.start workspace with notices := notices }) := by
  cases asked with
  | some file =>
      obtain ⟨content, warnings, held, parsed⟩ := holds
      have read : (Config.ofFile file).run.run (Progress.start workspace) =
          (.ok (config, warnings), Progress.start workspace) :=
        after_ofFile held parsed
      refine ⟨warnings, (config.overriddenBy environment).2, ?_⟩
      rw [configure, run_bind, run_adapt, read]
      dsimp only [Except.mapError]
      rw [run_bind, run_ofBuild, after_override]
      rfl
  | none =>
      have steps : (configure environment none).run.run (Progress.start workspace) =
          (ofBuild (match configurationFile? environment none workspace with
            | some file => Config.ofFileOverridden file environment
            | none => Config.override environment .default >>= fun config =>
                pure (config, []))).run.run (Progress.start workspace) :=
        rfl
      rw [steps, run_ofBuild]
      unfold Holds at holds
      split at holds
      next file isFile =>
        obtain ⟨content, warnings, held, parsed⟩ := holds
        refine ⟨warnings, (config.overriddenBy environment).2, ?_⟩
        rw [Config.ofFileOverridden, Build.after_bind_of_ok (after_ofFile held parsed)]
        rfl
      next isFile =>
        subst holds
        exact ⟨[], (Config.default.overriddenBy environment).2, rfl⟩

theorem Holds.of_file {file : Path} {content : String} {warnings : List Config.Warning}
    (isFile : configurationFile? environment asked workspace = some file)
    (held : workspace.readText file = .ok content)
    (parsed : Config.parse content file = .ok (config, warnings)) :
    Holds environment asked workspace config := by
  rw [Holds, isFile]
  exact ⟨content, warnings, held, parsed⟩

theorem configurationFile?_eq
    (environments : Environment.SameUnlessShadowed allSecondary first second)
    (workspaces : one.SameBut hidden other) (asked : Option Path) :
    configurationFile? first asked one = configurationFile? second asked other := by
  have sameDirectory : first.lookup "XDG_CONFIG_HOME" = second.lookup "XDG_CONFIG_HOME" :=
    environments _ fun isPolicy => absurd isPolicy (by decide)
  have sameHome : one.home = other.home := workspaces.answer fun _ => rfl
  have sameCurrent : one.currentPath = other.currentPath := workspaces.answer fun _ => rfl
  have sameFiles : one.isFile = other.isFile :=
    workspaces.answer fun workspace => funext isFile_conceal
  simp only [configurationFile?, Config.candidates, Config.userFile, Config.userDirectory,
    sameDirectory, sameHome, sameCurrent, sameFiles]

/-- A configuration in a file that is the same is held in both workspaces. -/
theorem Holds.of_sameBut
    (environments : Environment.SameUnlessShadowed allSecondary first second)
    (workspaces : one.SameBut hidden other)
    (unconcealed : ∀ file, configurationFile? first asked one = some file →
      Build.Unconcealed hidden file one)
    (holds : Holds first asked one config) : Holds second asked other config := by
  rw [Holds, configurationFile?_eq environments workspaces asked] at holds
  rw [configurationFile?_eq environments workspaces asked] at unconcealed
  rw [Holds]
  cases isFile : configurationFile? second asked other with
  | none =>
      rw [isFile] at holds
      exact holds
  | some file =>
      rw [isFile] at holds
      obtain ⟨content, warnings, held, parsed⟩ := holds
      refine ⟨content, warnings, ?_, parsed⟩
      rw [Workspace.readText, Workspace.read, workspaces.status_eq (unconcealed file isFile)] at held
      exact held

/-! ## Runs -/

variable {runner : Runner} {hindrances : Hindrances} {format : OutputFormat} {sources : List Path}
variable {target : Option Path} {dependencies : List String} {libs : Option (List String)}
variable {progress later : Progress}

/-- The repository of a run. -/
def repositoryOf (config : Config) (workspace : Workspace) : LocalRepository :=
  LocalRepository.ofRootOrDefault workspace.home config.toolchain.repository workspace.currentPath

theorem run_toolsOf (runner : Runner) (hindrances : Hindrances) (config : Config)
    (progress : Progress) :
    (toolsOf runner hindrances config).run.run progress =
      ((Tools.create config.toolchain runner hindrances
          (repositoryOf config progress.workspace).resolve config.compile).mapError
            (fun missing => Trouble.ofBuild (.misconfigured missing)),
        progress) := by
  rw [toolsOf, run_bind, run_get]
  dsimp only [repositoryOf]
  rw [run_ofBuild, Build.after_ofExcept]
  cases Tools.create config.toolchain runner hindrances _ config.compile <;> rfl

/-- A build from the command line opens a file in a workspace, in order to copy it. -/
def ActionOpens (runner : Runner) (hindrances : Hindrances) (config : Config) (sources : List Path)
    (target : Option Path) (dependencies : List String) (libs : Option (List String))
    (allSecondary : Bool) (start : Progress) (source : Path) (found : Workspace) : Prop :=
  ∃ tools, (toolsOf runner hindrances config).run.run start = (.ok tools, start) ∧
    Build.OpensToCopy tools (givenOr sources config.project.sources)
      (target.getD config.project.target) (dependenciesOf dependencies config)
      (optionsOf libs allSecondary config) start source found

/-- A run opens a file in a workspace, in order to copy it. -/
def RunOpens (surroundings : Surroundings) (arguments : List String) (workspace : Workspace)
    (source : Path) (found : Workspace) : Prop :=
  ∃ invocation sources target dependencies libs allSecondary config warnings configured,
    parse arguments = .ok invocation ∧
    invocation.action = .compile sources target dependencies libs allSecondary ∧
    (configure surroundings.environment invocation.config).run.run (Progress.start workspace) =
      (.ok (config, warnings), configured) ∧
    ActionOpens surroundings.runner surroundings.hindrances config sources target dependencies libs
      allSecondary configured source found

/-- The tools of a run do not look at what files hold. -/
theorem overlooks_compile_of_toolsOf (overlooked : runner.Overlooks hidden) {tools : Tools}
    (isTools : (toolsOf runner hindrances config).run.run progress = (.ok tools, later))
    {roots : List Path} {output : Path} {wanted : List Dependency} {options : BuildOptions}
    (unconcealed : ∀ source found,
      Build.OpensToCopy tools roots output wanted options progress source found →
        Build.Unconcealed hidden source found) :
    Build.Overlooks hidden (Build.compile tools roots output wanted options) progress := by
  rw [run_toolsOf, Prod.mk.injEq, Build.mapError_eq_ok_iff] at isTools
  obtain ⟨ready, _, ⟨⟩⟩ := Build.bind_eq_ok_iff.mp isTools.1
  refine Build.overlooks_compile ?_ overlooked ?_ unconcealed
  · exact fun dependency => LocalRepository.blind_resolve _ dependency
  · exact fun unit => Build.overlooks_compileUnit overlooked config.compile unit

/-- A part of a run goes on alike after all progress that differs from the given one only in what some
files hold. -/
def Overlooks {α : Type} (hidden : List Location) (part : Run α) (progress : Progress) : Prop :=
  ∀ other, progress.SameBut hidden other →
    (part.run.run progress).1 = (part.run.run other).1 ∧
      (part.run.run progress).2.SameBut hidden (part.run.run other).2

/-- A run that copies no concealed file goes on alike whatever is concealed. -/
theorem overlooks_perform_compile (overlooked : runner.Overlooks hidden)
    (unconcealed : ∀ source found,
      ActionOpens runner hindrances config sources target dependencies libs allSecondary progress
          source found →
        Build.Unconcealed hidden source found) :
    Overlooks hidden (perform runner hindrances config format
      (.compile sources target dependencies libs allSecondary)) progress := by
  intro later alike
  have sameRepository :
      repositoryOf config progress.workspace = repositoryOf config later.workspace :=
    alike.workspace.answer fun _ => rfl
  have isTools := run_toolsOf runner hindrances config progress
  have isLaterTools := run_toolsOf runner hindrances config later
  rw [← sameRepository] at isLaterTools
  rw [perform, run_bind, run_bind, isLaterTools]
  cases created : Tools.create config.toolchain runner hindrances
      (repositoryOf config progress.workspace).resolve config.compile with
  | error missing =>
      rw [created] at isTools
      rw [isTools]
      exact ⟨rfl, alike⟩
  | ok tools =>
      rw [created] at isTools
      rw [isTools]
      dsimp only [Except.mapError]
      rw [run_bind, run_bind, run_ofBuild, run_ofBuild]
      obtain ⟨sameOutcome, sameLeft⟩ := overlooks_compile_of_toolsOf overlooked isTools
        (fun source found opens => unconcealed source found ⟨tools, isTools, opens⟩) later alike
      rw [sameOutcome]
      generalize ((Build.compile tools (givenOr sources config.project.sources)
        (target.getD config.project.target) (dependenciesOf dependencies config)
        (optionsOf libs allSecondary config)).after later).1 = outcome
      cases outcome with
      | ok report =>
          exact ⟨rfl, sameLeft⟩
      | error failure =>
          exact ⟨rfl, sameLeft⟩

/-- What the environment or an argument shadows makes no difference to what is performed. -/
theorem perform_overridden
    (configs : Config.SameUnlessShadowed first sources target libs allSecondary config shadowed)
    (environments : Environment.SameUnlessShadowed allSecondary first second) :
    perform runner hindrances (config.overriddenBy first).1 format
        (.compile sources target dependencies libs allSecondary) =
      perform runner hindrances (shadowed.overriddenBy second).1 format
        (.compile sources target dependencies libs allSecondary) := by
  have sameCompilers : Build.compilerPrograms runner (config.overriddenBy first).1.compile =
      Build.compilerPrograms runner (shadowed.overriddenBy second).1.compile :=
    configs.compilerPrograms_overridden runner
  have sameTools : toolsOf runner hindrances (config.overriddenBy first).1 =
      toolsOf runner hindrances (shadowed.overriddenBy second).1 := by
    simp only [toolsOf, Tools.create, configs.toolchain_overridden environments, sameCompilers]
  have sameSources : givenOr sources (config.overriddenBy first).1.project.sources =
      givenOr sources (shadowed.overriddenBy second).1.project.sources := by
    cases sources with
    | nil =>
        exact configs.sources rfl
    | cons source rest =>
        rfl
  have sameTarget : target.getD (config.overriddenBy first).1.project.target =
      target.getD (shadowed.overriddenBy second).1.project.target :=
    getD_eq_of_unset configs.target
  have sameDependencies : dependenciesOf dependencies (config.overriddenBy first).1 =
      dependenciesOf dependencies (shadowed.overriddenBy second).1 :=
    congrArg (fun configured => (dependencies ++ configured).map Dependency.parse)
      configs.dependencies
  simp only [perform, sameTools, sameSources, sameTarget, sameDependencies,
    configs.optionsOf_overridden environments]

/-- The exit code and the standard output of a run, by the outcome of what it performs. -/
def shownBy : Except Trouble (Option String) → Nat × String
  | .ok (some text) => (0, text)
  | .ok none => (101, "")
  | .error _ => (1, "")

/-- A run with a configuration does what is asked for, and shows its outcome. -/
theorem run_of_configured {surroundings : Surroundings} {arguments : List String}
    {invocation : Invocation} {warnings : List Config.Warning}
    (parsed : parse arguments = .ok invocation)
    (configured : (configure surroundings.environment invocation.config).run.run
      (Progress.start workspace) = (.ok (config, warnings), progress)) :
    let performed := (perform surroundings.runner surroundings.hindrances config
      (.ofSwitch invocation.json) invocation.action).run.run progress
    (run surroundings arguments workspace).2 = performed.2 ∧
      ((run surroundings arguments workspace).1.code,
        (run surroundings arguments workspace).1.standardOutput) = shownBy performed.1 := by
  simp only [run, parsed, carryOut, configured]
  generalize (perform surroundings.runner surroundings.hindrances config (.ofSwitch invocation.json)
    invocation.action).run.run progress = performed
  obtain ⟨trouble | (_ | text), finished⟩ := performed <;> exact ⟨rfl, rfl⟩

/-- Without links a run copies nothing that lies outside its sources. -/
theorem unconcealed_of_runOpens {arguments : List String} {invocation : Invocation}
    {source : Path} {found : Workspace} (parsed : parse arguments = .ok invocation)
    (action : invocation.action = .compile sources target dependencies libs allSecondary)
    (holds : Holds first invocation.config one config) (plain : Build.Linkless one)
    (linkless : Build.RunnerKeeps runner Build.Linkless)
    (outside : ∀ location ∈ hidden, one.Outside (givenOr sources config.project.sources) location)
    (opens : RunOpens ⟨first, runner, hindrances⟩ arguments one source found) :
    Build.Unconcealed hidden source found := by
  obtain ⟨_, _, _, _, _, _, _, _, _, parsedAs, acts, configured, tools, isTools, opened⟩ := opens
  cases parsed.symm.trans parsedAs
  cases action.symm.trans acts
  obtain ⟨_, _, read⟩ := configure_of_holds holds
  rw [read, Prod.mk.injEq, Except.ok.injEq, Prod.mk.injEq] at configured
  obtain ⟨⟨rfl, -⟩, rfl⟩ := configured
  rw [run_toolsOf, Prod.mk.injEq, Build.mapError_eq_ok_iff] at isTools
  obtain ⟨ready, _, ⟨⟩⟩ := Build.bind_eq_ok_iff.mp isTools.1
  refine Build.unconcealed_of_outside ?_ ?_ ?_ opened
  · exact plain
  · exact linkless
  · exact outside

/-- Shadowed settings are not observed.  Two runs of the compiler on workspaces that differ at most in
what some files hold, in environments that differ at most in a policy that a switch shadows, run the
same commands, end with the same exit code and standard output and leave workspaces that differ at most
in these files, if what is read from the configuration file differs at most in shadowed settings, the
commands overlook the files and none of them is copied.  A configuration file that is none of these
files, as when only the file of the user differs and that of the project is read, needs to be accepted
in one of the runs only. -/
theorem shadowed_settings_are_not_observed {arguments : List String} {invocation : Invocation}
    (parsed : parse arguments = .ok invocation)
    (action : invocation.action = .compile sources target dependencies libs allSecondary)
    (environments : Environment.SameUnlessShadowed allSecondary first second)
    (workspaces : one.SameBut hidden other)
    (holds : Holds first invocation.config one config)
    (differs : (∀ file, configurationFile? first invocation.config one = some file →
        Build.Unconcealed hidden file one) ∨
      ∃ shadowed, Holds second invocation.config other shadowed ∧
        Config.SameUnlessShadowed first sources target libs allSecondary config shadowed)
    (overlooked : runner.Overlooks hidden)
    (uncopied : ∀ source found, RunOpens ⟨first, runner, hindrances⟩ arguments one source found →
      Build.Unconcealed hidden source found) :
    (run ⟨first, runner, hindrances⟩ arguments one).2.commands =
        (run ⟨second, runner, hindrances⟩ arguments other).2.commands ∧
      (run ⟨first, runner, hindrances⟩ arguments one).1.code =
        (run ⟨second, runner, hindrances⟩ arguments other).1.code ∧
      (run ⟨first, runner, hindrances⟩ arguments one).1.standardOutput =
        (run ⟨second, runner, hindrances⟩ arguments other).1.standardOutput ∧
      (run ⟨first, runner, hindrances⟩ arguments one).2.workspace.SameBut hidden
        (run ⟨second, runner, hindrances⟩ arguments other).2.workspace := by
  obtain ⟨shadowed, otherHolds, configs⟩ : ∃ shadowed,
      Holds second invocation.config other shadowed ∧
        Config.SameUnlessShadowed first sources target libs allSecondary config shadowed := by
    obtain isSeen | differs := differs
    · exact ⟨config, holds.of_sameBut environments workspaces isSeen, .refl config⟩
    · exact differs
  obtain ⟨warnings, notices, configured⟩ := configure_of_holds holds
  obtain ⟨otherWarnings, otherNotices, otherConfigured⟩ := configure_of_holds otherHolds
  have alike : Progress.SameBut hidden { Progress.start one with notices := notices }
      { Progress.start other with notices := otherNotices } :=
    ⟨workspaces, rfl⟩
  have unopened (source : Path) (found : Workspace)
      (opens : ActionOpens runner hindrances (config.overriddenBy first).1 sources target
        dependencies libs allSecondary { Progress.start one with notices := notices } source
        found) :
      Build.Unconcealed hidden source found :=
    uncopied source found ⟨invocation, sources, target, dependencies, libs, allSecondary, _,
      warnings, _, parsed, action, configured, opens⟩
  have performed : Overlooks hidden (perform runner hindrances (config.overriddenBy first).1
      (.ofSwitch invocation.json) (.compile sources target dependencies libs allSecondary))
      { Progress.start one with notices := notices } :=
    overlooks_perform_compile overlooked unopened
  obtain ⟨sameOutcome, sameLeft⟩ := performed _ alike
  obtain ⟨left, shown⟩ :=
    @run_of_configured _ _ _ ⟨first, runner, hindrances⟩ _ _ _ parsed configured
  obtain ⟨otherLeft, otherShown⟩ :=
    @run_of_configured _ _ _ ⟨second, runner, hindrances⟩ _ _ _ parsed otherConfigured
  rw [action] at left shown otherLeft otherShown
  dsimp only at left shown otherLeft otherShown
  rw [← perform_overridden configs environments, ← sameOutcome, ← shown, Prod.mk.injEq]
    at otherShown
  rw [← perform_overridden configs environments] at otherLeft
  rw [left, otherLeft]
  exact ⟨sameLeft.commands, otherShown.1.symm, otherShown.2.symm, sameLeft.workspace⟩

/-! ## A target that an argument shadows -/

/-- A configuration file that sets the target. -/
def targetText (target : String) : String :=
  "[project]\ntarget = \"" ++ target ++ "\"\n"

/-- One resource and a configuration file that sets the target. -/
def withTarget (target : String) : Workspace :=
  { oneFile with
    tree := oneFile.tree.set ["cljc.toml"]
      (.file (targetText target).toUTF8.data.toList ⟨0⟩ 420) }

/-- The same with a link to the configuration file among the sources. -/
def withLinkedTarget (target : String) : Workspace :=
  { withTarget target with
    tree := (withTarget target).tree.set ["src", "x"] (.link ⟨"../cljc.toml"⟩) }

/-- The default configuration but for the target. -/
def targeting (target : Path) : Config :=
  { Config.default with project := { ProjectSettings.default with target := target } }

/-- The arguments that give a source and a target. -/
def givenArguments : List String :=
  ["compile", "-s", "src", "-t", "out"]

/-- An environment that has the home of Clojure. -/
def homeOnly : Environment :=
  [("CLOJURE_HOME", "/c")]

theorem parse_givenArguments :
    parse givenArguments =
      .ok ⟨false, 0, none, .compile [⟨"src"⟩] (some ⟨"out"⟩) [] none false⟩ := by
  rfl

theorem sameUnlessShadowed_targeting (environment : Environment) (target one other : Path) :
    Config.SameUnlessShadowed environment [⟨"src"⟩] (some target) none false (targeting one)
      (targeting other) where
  clojureHome _ := rfl
  runtimeJar := rfl
  java _ := rfl
  repository _ := rfl
  libs _ := rfl
  policy _ _ := rfl
  javac := rfl
  scalac := rfl
  groovyc := rfl
  sources _ := rfl
  target unset := nomatch unset
  dependencies := rfl

theorem parse_targetText {target : String} (isTarget : target = "a" ∨ target = "b") :
    Config.parse (targetText target) ⟨"/cljc.toml"⟩ = .ok (targeting ⟨target⟩, []) := by
  obtain rfl | rfl := isTarget
  · decide +kernel
  · decide +kernel

theorem outside_src {workspace : Workspace} (current : workspace.current = []) :
    workspace.Outside [⟨"src"⟩] ["cljc.toml"] := by
  intro source member root form
  have isRoot : Path.absolute? ⟨"src"⟩ (FileTree.pathOf []) = some ⟨"/src"⟩ := by
    decide +kernel
  rw [List.mem_singleton.mp member, absolute, currentPath, current, isRoot] at form
  cases form
  decide +kernel

theorem overlooks_idleRunner : idleRunner.Overlooks hidden :=
  fun _ _ _ _ same => ⟨rfl, same⟩

/-- Two targets in the configuration file make no difference if one is given. -/
theorem targets_in_files_are_shadowed :
    (run ⟨homeOnly, idleRunner, unhindered⟩ givenArguments (withTarget "a")).2.workspace.isFile
        ⟨"out/r"⟩ = true ∧
      (run ⟨homeOnly, idleRunner, unhindered⟩ givenArguments (withTarget "a")).2.commands =
        (run ⟨homeOnly, idleRunner, unhindered⟩ givenArguments (withTarget "b")).2.commands ∧
      (run ⟨homeOnly, idleRunner, unhindered⟩ givenArguments (withTarget "a")).1.code =
        (run ⟨homeOnly, idleRunner, unhindered⟩ givenArguments (withTarget "b")).1.code ∧
      (run ⟨homeOnly, idleRunner, unhindered⟩ givenArguments (withTarget "a")).1.standardOutput =
        (run ⟨homeOnly, idleRunner, unhindered⟩ givenArguments (withTarget "b")).1.standardOutput ∧
      (run ⟨homeOnly, idleRunner, unhindered⟩ givenArguments (withTarget "a")).2.workspace.SameBut
        [["cljc.toml"]]
        (run ⟨homeOnly, idleRunner, unhindered⟩ givenArguments (withTarget "b")).2.workspace := by
  have holds : Holds homeOnly none (withTarget "a") (targeting ⟨"a"⟩) :=
    .of_file (by decide +kernel) (by decide +kernel) (parse_targetText (.inl rfl))
  have otherHolds : Holds homeOnly none (withTarget "b") (targeting ⟨"b"⟩) :=
    .of_file (by decide +kernel) (by decide +kernel) (parse_targetText (.inr rfl))
  have plain : Build.Linkless (withTarget "a") := by
    unfold Build.Linkless
    decide +kernel
  have same : (withTarget "a").SameBut [["cljc.toml"]] (withTarget "b") := by
    unfold SameBut
    decide +kernel
  refine ⟨by decide +kernel, ?_⟩
  refine shadowed_settings_are_not_observed parse_givenArguments rfl (fun _ _ => rfl) same holds
    (.inr ⟨targeting ⟨"b"⟩, otherHolds, sameUnlessShadowed_targeting _ _ _ _⟩)
    overlooks_idleRunner fun source found opens => ?_
  exact unconcealed_of_runOpens parse_givenArguments rfl holds plain (fun _ _ _ plain => plain)
    (List.forall_mem_singleton.mpr (outside_src rfl)) opens

/-- Through a link among the sources a target in the configuration file is copied, even if one is
given. -/
theorem linked_target_is_observed :
    ∃ one other config shadowed,
      parse givenArguments =
          .ok ⟨false, 0, none, .compile [⟨"src"⟩] (some ⟨"out"⟩) [] none false⟩ ∧
        one.SameBut [["cljc.toml"]] other ∧
        Holds homeOnly none one config ∧
        Holds homeOnly none other shadowed ∧
        Config.SameUnlessShadowed homeOnly [⟨"src"⟩] (some ⟨"out"⟩) none false config shadowed ∧
        one.Outside [⟨"src"⟩] ["cljc.toml"] ∧
        idleRunner.Overlooks [["cljc.toml"]] ∧
        ¬ (run ⟨homeOnly, idleRunner, unhindered⟩ givenArguments one).2.workspace.SameBut
          [["cljc.toml"]] (run ⟨homeOnly, idleRunner, unhindered⟩ givenArguments other).2.workspace := by
  refine ⟨withLinkedTarget "a", withLinkedTarget "b", targeting ⟨"a"⟩, targeting ⟨"b"⟩,
    parse_givenArguments, ?same, ?holds, ?otherHolds, sameUnlessShadowed_targeting _ _ _ _,
    outside_src rfl, overlooks_idleRunner, ?observed⟩
  case same =>
    unfold SameBut
    decide +kernel
  case holds =>
    exact .of_file (by decide +kernel) (by decide +kernel) (parse_targetText (.inl rfl))
  case otherHolds =>
    exact .of_file (by decide +kernel) (by decide +kernel) (parse_targetText (.inr rfl))
  case observed =>
    unfold SameBut
    decide +kernel

end CommandLine

end ClojureBuild
