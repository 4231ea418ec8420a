import ClojureBuild.Proofs.Build.Preparation
import ClojureBuild.Proofs.Workspace.Concealed

/-!
# Builds that overlook contents

A build does not look at what files hold, except when it copies them.  So it goes on alike in
workspaces that differ only in what some files hold, as long as it copies none of these files and the
commands that it runs overlook them, too.
-/

namespace ClojureBuild

/-! ## What is asked of a workspace -/

namespace Workspace

variable {hidden : List Location} {workspace : Workspace}

@[simp]
theorem filesOf_conceal (source : Path) :
    (workspace.conceal hidden).filesOf source = workspace.filesOf source := by
  simp only [filesOf, isDirectory_conceal, walk_conceal, isFile_conceal]

theorem filesOfAll_conceal (sources : List Path) :
    (workspace.conceal hidden).filesOfAll sources = workspace.filesOfAll sources := by
  induction sources with
  | nil =>
      rfl
  | cons source rest inductionHypothesis =>
      simp only [filesOfAll, filesOf_conceal, inductionHypothesis]

@[simp]
theorem distinctFiles_conceal (sources : List Path) :
    (workspace.conceal hidden).distinctFiles sources = workspace.distinctFiles sources := by
  simp only [distinctFiles, filesOfAll_conceal]

@[simp]
theorem definitionsOf_conceal (roots : List Path) (namespaces : List Namespace) :
    (workspace.conceal hidden).definitionsOf roots namespaces =
      workspace.definitionsOf roots namespaces := by
  induction namespaces with
  | nil =>
      rfl
  | cons wanted rest inductionHypothesis =>
      simp only [definitionsOf, definitionOf, sourcesOf, isFile_conceal, inductionHypothesis]

theorem outdated_conceal (target : Path) (definitions : List Definition) :
    (workspace.conceal hidden).outdated target definitions =
      workspace.outdated target definitions := by
  induction definitions with
  | nil =>
      rfl
  | cons definition rest inductionHypothesis =>
      simp only [outdated, isFresh_conceal, inductionHypothesis]

@[simp]
theorem isBatchDue_conceal (target : Path) (definitions : List Definition)
    (namespaces : List Namespace) :
    (workspace.conceal hidden).isBatchDue target definitions namespaces =
      workspace.isBatchDue target definitions namespaces := by
  simp only [isBatchDue, outdated_conceal, lacksArtifact, isPresent_conceal]

end Workspace

open Workspace

variable {hidden : List Location}

theorem LocalRepository.blind_resolve (repository : LocalRepository) (dependency : Dependency) :
    Blind hidden fun workspace => repository.resolve workspace dependency := by
  intro workspace
  cases dependency with
  | path path =>
      simp only [resolve, isPresent_conceal]
      rfl
  | artifact coordinate =>
      simp only [resolve, isFile_conceal]
      rfl

namespace Build

theorem blind_readBelow (root : Path) : Blind hidden (readBelow root) := by
  intro workspace
  simp only [readBelow, isDirectory_conceal, walk_conceal]

theorem blind_readNamespaces (options : BuildOptions) (roots : List Path) :
    Blind hidden (readNamespaces options roots) := by
  intro workspace
  have below (root : Path) :
      readBelow root (workspace.conceal hidden) = readBelow root workspace :=
    blind_readBelow root workspace
  simp only [readNamespaces, below]

theorem blind_sortSource (split : Sources) (source : Path) :
    Blind hidden fun workspace => sortSource workspace split source := by
  intro workspace
  simp only [sortSource, absolute_conceal, isDirectory_conceal, isFile_conceal]

theorem blind_readOrder {resolver : Resolver}
    (resolving : ∀ dependency, Blind hidden fun workspace => resolver workspace dependency)
    (dependencies : List Dependency) (roots : List Path) (runtime : Path) :
    Blind hidden (readOrder resolver dependencies roots runtime) := by
  intro workspace
  have resolved (dependency : Dependency) :
      resolver (workspace.conceal hidden) dependency = resolver workspace dependency :=
    resolving dependency workspace
  simp only [readOrder, resolved, absolute_conceal]

/-- The plan of a build does not depend on what files hold. -/
theorem blind_readPlan {tools : Tools}
    (resolving : ∀ dependency, Blind hidden fun workspace => tools.resolver workspace dependency)
    (sources : List Path) (target : Path) (dependencies : List Dependency)
    (options : BuildOptions) :
    Blind hidden (readPlan tools sources target dependencies options) := by
  intro workspace
  have sorted (split : Sources) (source : Path) :
      sortSource (workspace.conceal hidden) split source = sortSource workspace split source :=
    blind_sortSource split source workspace
  have sortedAll : sortSource (workspace.conceal hidden) = sortSource workspace :=
    funext fun split => funext fun source => sorted split source
  have named (roots : List Path) :
      readNamespaces options roots (workspace.conceal hidden) =
        readNamespaces options roots workspace :=
    blind_readNamespaces options roots workspace
  have ordered (roots : List Path) :
      readOrder tools.resolver dependencies roots tools.toolchain.runtimeJar
          (workspace.conceal hidden) =
        readOrder tools.resolver dependencies roots tools.toolchain.runtimeJar workspace :=
    blind_readOrder resolving dependencies roots tools.toolchain.runtimeJar workspace
  simp only [readPlan, absolute_conceal, sortedAll, named, definitionsOf_conceal, ordered]

end Build

/-! ## Steps -/

/-- The same commands have been run, and the workspaces differ at most in what some files hold. -/
structure Progress.SameBut (hidden : List Location) (one other : Progress) : Prop where
  workspace : one.workspace.SameBut hidden other.workspace
  commands : one.commands = other.commands

/-- Commands go on alike in workspaces that differ only in what some files hold. -/
def Runner.Overlooks (hidden : List Location) (runner : Runner) : Prop :=
  ∀ earlier command {one other : Workspace}, one.SameBut hidden other →
    (runner.run earlier command one).1 = (runner.run earlier command other).1 ∧
      (runner.run earlier command one).2.SameBut hidden (runner.run earlier command other).2

namespace Build

variable {α β : Type} {build : Build α} {next : α → Build β} {progress later : Progress}
variable {runner : Runner} {source destination : Path} {hindrances : Hindrances}

/-- A build goes on alike after all progress that differs from the given one only in what some files
hold. -/
def Overlooks (hidden : List Location) (build : Build α) (progress : Progress) : Prop :=
  ∀ other, progress.SameBut hidden other →
    (build.after progress).1 = (build.after other).1 ∧
      (build.after progress).2.SameBut hidden (build.after other).2

namespace Overlooks

theorem of_reads {outcome : Workspace → Except BuildError α} (reads : Reads build outcome)
    (blind : Blind hidden outcome) (progress : Progress) : Overlooks hidden build progress := by
  intro other same
  obtain ⟨notices, done⟩ := reads progress
  obtain ⟨otherNotices, otherDone⟩ := reads other
  rw [done, otherDone]
  exact ⟨same.workspace.answer blind, same.workspace, same.commands⟩

theorem pure (value : α) (progress : Progress) :
    Overlooks hidden (pure value : Build α) progress :=
  fun _ same => ⟨rfl, same⟩

theorem throw (failure : BuildError) (progress : Progress) :
    Overlooks hidden (throw failure : Build α) progress :=
  fun _ same => ⟨rfl, same⟩

theorem bind (first : Overlooks hidden build progress)
    (second : ∀ value later, build.after progress = (.ok value, later) →
      Overlooks hidden (next value) later) :
    Overlooks hidden (build >>= next) progress := by
  intro other same
  obtain ⟨sameOutcome, sameLater⟩ := first other same
  rw [after_bind, after_bind]
  cases done : build.after progress with
  | mk outcome later =>
      cases otherDone : build.after other with
      | mk otherOutcome otherLater =>
          rw [done, otherDone] at sameOutcome sameLater
          cases sameOutcome
          cases outcome with
          | ok value =>
              exact second value later done otherLater sameLater
          | error failure =>
              exact ⟨rfl, sameLater⟩

/-- Asking the workspace first. -/
theorem look {ask : Workspace → Build α} (blind : Blind hidden ask)
    (asked : Overlooks hidden (ask progress.workspace) progress)
    (second : ∀ value later, (ask progress.workspace).after progress = (.ok value, later) →
      Overlooks hidden (next value) later) :
    Overlooks hidden (get >>= fun progress => ask progress.workspace >>= next) progress := by
  intro other same
  rw [after_bind_of_ok (after_get progress), after_bind_of_ok (after_get other),
    ← same.workspace.answer blind]
  exact asked.bind second other same

theorem ofExcept {ε : Type} (toError : ε → BuildError) (result : Except ε α)
    (progress : Progress) : Overlooks hidden (ofExcept toError result) progress :=
  of_reads (Reads.ofExcept toError result) (fun _ => rfl) progress

theorem ofReported (reported : Except FileFailure α × List Notice) (progress : Progress) :
    Overlooks hidden (ofReported reported) progress :=
  of_reads (Reads.ofReported reported) (fun _ => rfl) progress

end Overlooks

theorem overlooks_checkRoot (root : Path) (progress : Progress) :
    Overlooks hidden (checkRoot root) progress := by
  refine .of_reads (reads_checkRoot root) ?_ progress
  intro workspace
  simp only [isDirectory_conceal]

theorem overlooks_makeDirectories (path : Path) (progress : Progress) :
    Overlooks hidden (makeDirectories path) progress := by
  intro other same
  obtain ⟨sameOutcome, sameLeft⟩ := same.workspace.makeDirectories path
  rw [after_makeDirectories, after_makeDirectories, sameOutcome]
  exact ⟨rfl, sameLeft, same.commands⟩

theorem overlooks_runCommand (overlooked : runner.Overlooks hidden) (command : Command)
    (progress : Progress) : Overlooks hidden (runCommand runner command) progress := by
  intro other same
  obtain ⟨sameOutcome, sameLeft⟩ := overlooked progress.commands command same.workspace
  rw [after_runCommand, after_runCommand, ← same.commands]
  exact ⟨congrArg Except.ok sameOutcome, sameLeft, rfl⟩

/-- A file may be copied whose content is not concealed. -/
theorem overlooks_copyFile
    (seen : ∀ location entry,
      progress.workspace.status source = .ok (location, entry) → location ∉ hidden)
    (destination : Path) : Overlooks hidden (copyFile hindrances source destination) progress := by
  intro other same
  obtain ⟨sameOutcome, sameLeft⟩ := same.workspace.copy seen destination
  rw [after_copyFile, after_copyFile, sameOutcome]
  exact ⟨rfl, sameLeft, same.commands⟩

/-! ## Steps for items -/

/-- A step for every item comes to one of them: the steps for those before it succeed. -/
def ComesTo (step : α → Build β) (items : List α) (start : Progress) (item : α)
    (reached : Progress) : Prop :=
  ∃ before rest results, items = before ++ item :: rest ∧
    (before.mapM step).after start = (.ok results, reached)

theorem comesTo_first (step : α → Build β) (item : α) (rest : List α) (start : Progress) :
    ComesTo step (item :: rest) start item start :=
  ⟨[], rest, [], rfl, rfl⟩

theorem ComesTo.cons {step : α → Build β} {first item : α} {rest : List α} {value : β}
    {reached : Progress} (done : (step first).after progress = (.ok value, later))
    (comes : ComesTo step rest later item reached) :
    ComesTo step (first :: rest) progress item reached := by
  obtain ⟨before, behind, results, rfl, succeeded⟩ := comes
  refine ⟨first :: before, behind, value :: results, rfl, ?_⟩
  exact after_mapM_cons_eq_ok_iff.mpr ⟨value, later, results, done, succeeded, rfl⟩

theorem Overlooks.mapM {step : α → Build β} {items : List α}
    (each : ∀ item reached, ComesTo step items progress item reached →
      Overlooks hidden (step item) reached) :
    Overlooks hidden (items.mapM step) progress := by
  induction items generalizing progress with
  | nil =>
      exact Overlooks.pure [] progress
  | cons first rest inductionHypothesis =>
      rw [List.mapM_cons]
      refine (each first progress (comesTo_first step first rest progress)).bind
        fun value later done => ?_
      refine (inductionHypothesis fun item reached comes =>
        each item reached (comes.cons done)).bind fun others final _ => ?_
      exact Overlooks.pure (value :: others) final

/-! ## Commands -/

theorem overlooks_runSecondaryCommand (overlooked : runner.Overlooks hidden) (command : Command)
    (progress : Progress) : Overlooks hidden (runSecondaryCommand runner command) progress := by
  rw [runSecondaryCommand]
  refine (overlooks_runCommand overlooked command progress).bind fun outcome later _ => ?_
  cases outcome with
  | error reason =>
      exact Overlooks.throw _ later
  | ok output =>
      dsimp only
      split
      · exact Overlooks.pure () later
      · exact Overlooks.throw _ later

theorem overlooks_compileUnit (overlooked : runner.Overlooks hidden) (settings : CompileSettings)
    (unit : CompileUnit) (progress : Progress) :
    Overlooks hidden (compileUnit (compilerPrograms runner settings) unit) progress := by
  rw [compileUnit_eq]
  induction unit.commandsAs unit.language (settings.optionsFor unit.language) settings.javac
    generalizing progress with
  | nil =>
      exact .pure PUnit.unit progress
  | cons command rest inductionHypothesis =>
      exact (overlooks_runSecondaryCommand overlooked command progress).bind fun _ later _ =>
        inductionHypothesis later

theorem overlooks_runBatch (overlooked : runner.Overlooks hidden) (java : Path)
    (namespaces : List Namespace) (classpath : Classpath) (target : Path) (progress : Progress) :
    Overlooks hidden (runBatch runner java namespaces classpath target) progress := by
  rw [runBatch]
  split
  · exact .pure () progress
  · refine (overlooks_makeDirectories target progress).bind fun _ later _ => ?_
    refine (overlooks_runCommand overlooked _ later).bind fun outcome final _ => ?_
    cases outcome with
    | error reason =>
        exact Overlooks.throw _ final
    | ok output =>
        dsimp only
        split
        · exact Overlooks.pure () final
        · exact Overlooks.throw _ final

theorem overlooks_compileNamespaces {tools : Tools} (overlooked : tools.runner.Overlooks hidden)
    (namespaces : List Namespace) (definitions : List Definition) (classpath : Classpath)
    (target : Path) (progress : Progress) :
    Overlooks hidden (compileNamespaces tools namespaces definitions classpath target)
      progress := by
  have blind : Blind hidden fun workspace =>
      ofSystem (workspace.isBatchDue target definitions namespaces) :=
    fun _ => congrArg ofSystem (isBatchDue_conceal target definitions namespaces)
  rw [compileNamespaces]
  refine .look blind (.ofExcept _ _ progress) fun due later _ => ?_
  split
  · exact (overlooks_runBatch overlooked _ _ _ _ later).bind fun _ final _ => .pure _ final
  · exact .pure false later

theorem overlooks_delegate {compilers : Language → SecondaryCompiler}
    (units : ∀ unit progress, Overlooks hidden (compileUnit compilers unit) progress)
    (classpath : Classpath) (target : Path) (shares : List Share) (progress : Progress) :
    Overlooks hidden (delegate compilers classpath target shares) progress := by
  have others (shares : List Share) (progress : Progress) :
      Overlooks hidden (delegateRest compilers classpath target shares) progress := by
    induction shares generalizing progress with
    | nil =>
        exact .pure () progress
    | cons share rest inductionHypothesis =>
        exact (units _ progress).bind fun _ later _ => inductionHypothesis later
  cases shares with
  | nil =>
      exact .pure () progress
  | cons share rest =>
      exact (units _ progress).bind fun _ later _ => others rest later

/-! ## Copies -/

/-- Refreshing a resource opens its source in a workspace: the copy is not up to date, and the
directories for it have been made. -/
def RefreshOpens (destination source : Path) (start : Progress) (found : Workspace) : Prop :=
  start.workspace.isFresh destination source = .ok false ∧
    ∃ value reached, (destination.parent?.forM makeDirectories).after start = (.ok value, reached) ∧
      reached.workspace = found

/-- A pass over a root opens a file in a workspace. -/
def PassOpens (hindrances : Hindrances) (root target : Path) (excluded : List Namespace)
    (start : Progress) (source : Path) (found : Workspace) : Prop :=
  ∃ files notices destination reached,
    start.workspace.isDirectory root = true ∧
    start.workspace.walk root (some target) = (.ok files, notices) ∧
    ComesTo (fun held : Path × Path => refreshResource hindrances held.1 held.2)
      (resourcesBelow root target excluded files)
      { start with notices := start.notices ++ notices } (destination, source) reached ∧
    RefreshOpens destination source reached found

/-- Filling a target opens a file in a workspace. -/
def FillOpens (tools : Tools) (plan : Plan) (start : Progress) (source : Path)
    (found : Workspace) : Prop :=
  ∃ compiled prepared root reached,
    (prepareTarget tools plan).after start = (.ok compiled, prepared) ∧
    ComesTo (fun root => copyResources tools.hindrances root plan.target plan.namespaces)
      plan.sources.roots prepared root reached ∧
    PassOpens tools.hindrances root plan.target plan.namespaces reached source found

/-- A build opens a file in a workspace, in order to copy it. -/
def OpensToCopy (tools : Tools) (sources : List Path) (target : Path)
    (dependencies : List Dependency) (options : BuildOptions) (start : Progress) (source : Path)
    (found : Workspace) : Prop :=
  ∃ plan planned,
    (makePlan tools sources target dependencies options).after start = (.ok plan, planned) ∧
    FillOpens tools plan planned source found

/-- A path does not lead to a concealed file. -/
def Unconcealed (hidden : List Location) (source : Path) (found : Workspace) : Prop :=
  ∀ location entry, found.status source = .ok (location, entry) → location ∉ hidden

theorem overlooks_refreshResource
    (unconcealed : ∀ found, RefreshOpens destination source progress found →
      Unconcealed hidden source found) :
    Overlooks hidden (refreshResource hindrances destination source) progress := by
  have blind : Blind hidden fun workspace => ofSystem (workspace.isFresh destination source) :=
    fun _ => congrArg ofSystem (isFresh_conceal destination source)
  rw [refreshResource]
  refine .look blind (.ofExcept _ _ progress) fun fresh later asked => ?_
  rw [ofSystem, after_ofExcept, Prod.mk.injEq, mapError_eq_ok_iff] at asked
  obtain ⟨isFresh, rfl⟩ := asked
  cases fresh with
  | true =>
      exact .pure _ progress
  | false =>
      have parents : Overlooks hidden (destination.parent?.forM makeDirectories) progress := by
        cases destination.parent? with
        | none =>
            exact .pure PUnit.unit progress
        | some parent =>
            exact overlooks_makeDirectories parent progress
      have copied : Overlooks hidden (copyInto hindrances source destination) progress :=
        parents.bind fun value reached made => overlooks_copyFile
          (unconcealed reached.workspace ⟨isFresh, value, reached, made, rfl⟩) destination
      exact copied.bind fun _ final _ => .pure _ final

theorem overlooks_copyResources {root target : Path} {excluded : List Namespace}
    (unconcealed : ∀ source found, PassOpens hindrances root target excluded progress source found →
      Unconcealed hidden source found) :
    Overlooks hidden (copyResources hindrances root target excluded) progress := by
  have blind : Blind hidden fun workspace => ofReported (workspace.walk root (some target)) :=
    fun _ => congrArg ofReported (walk_conceal root (some target))
  have copied (isRoot : progress.workspace.isDirectory root = true) (files : List Path)
      (walked : Progress)
      (isWalked : (ofReported (progress.workspace.walk root (some target))).after progress =
        (.ok files, walked)) :
      Overlooks hidden ((resourcesBelow root target excluded files).mapM
          (fun held : Path × Path => refreshResource hindrances held.1 held.2) >>= fun passes =>
        pure (ResourceReport.ofPasses passes)) walked := by
    rw [after_ofReported, Prod.mk.injEq, mapError_eq_ok_iff] at isWalked
    obtain ⟨isFiles, rfl⟩ := isWalked
    refine Overlooks.bind (.mapM fun held reached comes => ?_) fun passes final _ => .pure _ final
    refine overlooks_refreshResource fun found opens => ?_
    exact unconcealed held.2 found
      ⟨files, _, held.1, reached, isRoot, Prod.ext isFiles rfl, comes, opens⟩
  rw [copyResources]
  refine (overlooks_checkRoot root progress).bind fun _ checked isChecked => ?_
  rw [after_checkRoot, Prod.mk.injEq] at isChecked
  obtain ⟨checks, rfl⟩ := isChecked
  cases isRoot : progress.workspace.isDirectory root with
  | true =>
      exact (Overlooks.look blind (.ofReported _ progress) (copied isRoot) :)
  | false =>
      rw [isRoot] at checks
      cases checks

theorem overlooks_prepareTarget {tools : Tools} (overlooked : tools.runner.Overlooks hidden)
    (plan : Plan) (progress : Progress) : Overlooks hidden (prepareTarget tools plan) progress := by
  refine (overlooks_compileNamespaces overlooked _ _ _ _ progress).bind fun compiled later _ => ?_
  exact (overlooks_makeDirectories plan.target later).bind fun _ final _ => .pure compiled final

theorem overlooks_fillTarget {tools : Tools} {plan : Plan}
    (overlooked : tools.runner.Overlooks hidden)
    (unconcealed : ∀ source found, FillOpens tools plan progress source found →
      Unconcealed hidden source found) :
    Overlooks hidden (fillTarget tools plan) progress := by
  rw [fillTarget_eq]
  refine (overlooks_prepareTarget overlooked plan progress).bind fun compiled prepared made => ?_
  refine Overlooks.bind (.mapM fun root reached comes => ?_) fun passes final _ => .pure _ final
  refine overlooks_copyResources fun source found opens => ?_
  exact unconcealed source found ⟨compiled, prepared, root, reached, made, comes, opens⟩

theorem overlooks_finish {tools : Tools}
    (units : ∀ unit progress, Overlooks hidden (compileUnit tools.compilers unit) progress)
    (options : BuildOptions) (plan : Plan) (filled : Bool × List ResourceReport)
    (progress : Progress) : Overlooks hidden (finish tools options plan filled) progress := by
  have blind : Blind hidden fun workspace =>
      ofReported (workspace.distinctFiles (plan.sources.roots ++ plan.sources.files)) :=
    fun _ => congrArg ofReported (distinctFiles_conceal _)
  rw [finish]
  refine .look blind (.ofReported _ progress) fun files listed _ => ?_
  exact (overlooks_delegate units _ _ _ listed).bind fun _ final _ => .pure _ final

/-- A build that copies no concealed file goes on alike whatever is concealed. -/
theorem overlooks_compile {tools : Tools} {sources : List Path} {target : Path}
    {dependencies : List Dependency} {options : BuildOptions}
    (resolving : ∀ dependency, Blind hidden fun workspace => tools.resolver workspace dependency)
    (overlooked : tools.runner.Overlooks hidden)
    (units : ∀ unit progress, Overlooks hidden (compileUnit tools.compilers unit) progress)
    (unconcealed : ∀ source found,
      OpensToCopy tools sources target dependencies options progress source found →
        Unconcealed hidden source found) :
    Overlooks hidden (compile tools sources target dependencies options) progress := by
  rw [compile_eq]
  have planning : Overlooks hidden (makePlan tools sources target dependencies options) progress :=
    .of_reads (reads_makePlan tools sources target dependencies options)
      (blind_readPlan resolving sources target dependencies options) progress
  refine planning.bind fun plan planned made => ?_
  refine Overlooks.bind (overlooks_fillTarget overlooked fun source found opens =>
    unconcealed source found ⟨plan, planned, made, opens⟩) fun filled reached _ => ?_
  exact overlooks_finish units options plan filled reached

end Build

end ClojureBuild
