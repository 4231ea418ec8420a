import ClojureBuild.Proofs.Build.Plan
import ClojureBuild.Proofs.Build.Resources
import ClojureBuild.Proofs.Workspace.Filled

/-!
# Builds with nothing to do

A workspace is up to date with a plan when the artifacts are there and not older than their sources,
and the copies are not older than what they are copies of.  A build then runs no command and writes
nothing.  A workspace that only advances stays up to date.
-/

namespace ClojureBuild

namespace Workspace

variable {before after workspace : Workspace} {path output input target : Path}
variable {location place : Location} {entry : Entry} {definitions : List Definition}
variable {namespaces : List Namespace}

/-! ## Artifacts -/

theorem outdated_eq_ok_nil_iff :
    workspace.outdated target definitions = .ok [] ↔
      ∀ definition ∈ definitions,
        workspace.isFresh (target.join definition.defined.artifactPath) definition.source =
          .ok true := by
  induction definitions with
  | nil =>
      simp [outdated]
  | cons definition rest inductionHypothesis =>
      rw [outdated, Build.bind_eq_ok_iff, List.forall_mem_cons, ← inductionHypothesis]
      constructor
      · rintro ⟨fresh, isFresh, onward⟩
        rcases Build.bind_eq_ok_iff.1 onward with ⟨others, isOthers, last⟩
        cases fresh with
        | true =>
            cases last
            exact ⟨isFresh, isOthers⟩
        | false =>
            cases last
      · intro bothFresh
        exact ⟨true, bothFresh.1, Build.bind_eq_ok_iff.2 ⟨[], bothFresh.2, rfl⟩⟩

/-- Every artifact is there, and not older than the source of its namespace. -/
structure ArtifactsUpToDate (workspace : Workspace) (target : Path)
    (definitions : List Definition) (namespaces : List Namespace) : Prop where
  fresh : ∀ definition ∈ definitions,
    workspace.isFresh (target.join definition.defined.artifactPath) definition.source = .ok true
  present : ∀ wanted ∈ namespaces, (∀ definition ∈ definitions, definition.defined ≠ wanted) →
    workspace.isPresent (target.join wanted.artifactPath) = true

theorem lacksArtifact_eq_false_iff :
    workspace.lacksArtifact target definitions namespaces = false ↔
      ∀ wanted ∈ namespaces, (∀ definition ∈ definitions, definition.defined ≠ wanted) →
        workspace.isPresent (target.join wanted.artifactPath) = true := by
  rw [lacksArtifact, List.any_eq_false]
  simp

/-- The batch is not due when the artifacts are up to date. -/
theorem isBatchDue_eq_ok_false_iff :
    workspace.isBatchDue target definitions namespaces = .ok false ↔
      workspace.ArtifactsUpToDate target definitions namespaces := by
  rw [isBatchDue, Build.bind_eq_ok_iff]
  constructor
  · rintro ⟨stale, isStale, last⟩
    have neither :
        (!stale.isEmpty || workspace.lacksArtifact target definitions namespaces) = false :=
      Except.ok.inj last
    rw [Bool.or_eq_false_iff, Bool.not_eq_false', List.isEmpty_iff] at neither
    rcases neither with ⟨rfl, held⟩
    exact ⟨outdated_eq_ok_nil_iff.1 isStale, lacksArtifact_eq_false_iff.1 held⟩
  · intro upToDate
    refine ⟨[], outdated_eq_ok_nil_iff.2 upToDate.fresh, ?_⟩
    rw [lacksArtifact_eq_false_iff.2 upToDate.present]
    rfl

/-- An output stays fresh while its input, a file, stays as it is and the workspace advances. -/
theorem Advanced.isFresh
    {content : List UInt8} {modified : Instant} {mode : Nat} (plain : before.tree.Plain)
    (advanced : Advanced before after)
    (found : before.status input = .ok (location, .file content modified mode))
    (past : modified.nanoseconds ≤ before.clock.nanoseconds)
    (kept : after.tree.find? location = some (.file content modified mode))
    (fresh : before.isFresh output input = .ok true) :
    after.isFresh output input = .ok true := by
  have known : before.modified? input = .ok (some modified) :=
    (modified?_eq_ok_some_iff _ _ _).2 ⟨location, _, found, rfl⟩
  rcases (isFresh_of_modified? known output).1 fresh with ⟨written, wrote, order⟩
  rcases (modified?_eq_ok_some_iff _ _ _).1 wrote with ⟨outputPlace, outputEntry, isOutput, rfl⟩
  rcases advanced.status plain found with ⟨input', foundAfter, -, -, -⟩
  have sameInput : input' = .file content modified mode := by
    have held := find?_of_status foundAfter
    rw [kept] at held
    exact (Option.some.inj held).symm
  subst sameInput
  rcases advanced.status plain isOutput with ⟨later, outputAfter, newer, -, -⟩
  have knownAfter : after.modified? input = .ok (some modified) :=
    (modified?_eq_ok_some_iff _ _ _).2 ⟨location, _, foundAfter, rfl⟩
  refine (isFresh_of_modified? knownAfter output).2 ⟨after.lastModified outputPlace later, ?_, ?_⟩
  · exact (modified?_eq_ok_some_iff _ _ _).2 ⟨outputPlace, later, outputAfter, rfl⟩
  · rcases newer with ⟨-, sameTime⟩ | stamped
    · rwa [sameTime]
    · omega

/-- Every source of a namespace leads to a file that is not of the future and stays as it is. -/
def SourcesKept (before after : Workspace) (definitions : List Definition) : Prop :=
  ∀ definition ∈ definitions, ∃ location content modified mode,
    before.status definition.source = .ok (location, .file content modified mode) ∧
      modified.nanoseconds ≤ before.clock.nanoseconds ∧
        after.tree.find? location = some (.file content modified mode)

/-- Artifacts stay up to date while the sources stay as they are and the workspace advances. -/
theorem ArtifactsUpToDate.advance
    (upToDate : before.ArtifactsUpToDate target definitions namespaces)
    (plain : before.tree.Plain) (advanced : Advanced before after)
    (kept : SourcesKept before after definitions) :
    after.ArtifactsUpToDate target definitions namespaces where
  fresh := by
    intro definition member
    rcases kept definition member with ⟨location, content, modified, mode, found, past, same⟩
    exact advanced.isFresh plain found past same (upToDate.fresh definition member)
  present := fun wanted member sourceless =>
    advanced.isPresent plain (upToDate.present wanted member sourceless)

end Workspace

namespace Build

open Workspace

variable {root target : Path} {location place : Location} {names : List String}
variable {progress later : Progress} {excluded : List Namespace} {workspace : Workspace}
variable {tools : Tools} {dependencies : List Dependency} {options : BuildOptions} {plan : Plan}
variable {hindrances : Hindrances}

/-! ## Steps that change nothing -/

/-- Where no step changes anything, all of them together change nothing. -/
theorem after_mapM_of_same
    {α β : Type} {step : α → Build β} {items : List α} {good : β → Prop}
    (each : ∀ item ∈ items,
      ∃ result, (step item).after progress = (.ok result, progress) ∧ good result) :
    ∃ results, (items.mapM step).after progress = (.ok results, progress) ∧
      ∀ result ∈ results, good result := by
  induction items with
  | nil =>
      exact ⟨[], rfl, by simp⟩
  | cons item rest inductionHypothesis =>
      rcases each item List.mem_cons_self with ⟨first, firstDone, firstGood⟩
      rcases inductionHypothesis fun other member => each other (List.mem_cons_of_mem item member)
        with ⟨others, othersDone, othersGood⟩
      refine ⟨first :: others, after_mapM_cons_eq_ok_iff.2 ⟨_, _, _, firstDone, othersDone, rfl⟩, ?_⟩
      exact List.forall_mem_cons.2 ⟨firstGood, othersGood⟩

theorem copied_ofPasses_eq_nil
    {passes : List ResourceReport} (nothing : ∀ pass ∈ passes, pass.copied = []) :
    (ResourceReport.ofPasses passes).copied = [] := by
  rw [ResourceReport.ofPasses_eq, List.flatMap_eq_nil_iff]
  exact nothing

/-- Every resource below a root has a copy that is not older. -/
def CopiesUpToDate (workspace : Workspace) (root target : Path) (excluded : List Namespace) : Prop :=
  ∀ names content modified mode,
    workspace.tree.find? (placeOf root ++ names) = some (.file content modified mode) →
      avoids (some target) root names = true → isResource excluded names = true →
        workspace.NotOlder (placeOf target ++ names) modified

/-- A pass over a root whose copies are up to date writes nothing. -/
theorem copyResources_of_upToDate
    (plain : progress.workspace.tree.Plain)
    (leads : progress.workspace.LeadsToDirectory target (placeOf target))
    (rootAbsolute : root.isAbsolute = true)
    (directory : progress.workspace.isDirectory root = true)
    (upToDate : CopiesUpToDate progress.workspace root target excluded) :
    ∃ pass, (copyResources hindrances root target excluded).after progress = (.ok pass, progress) ∧
      pass.copied = [] := by
  rcases isDirectory_iff_leadsToDirectory.1 directory with ⟨location, rootLeads⟩
  have isPlace := eq_placeOf_of_leadsToDirectory plain rootAbsolute rootLeads
  subst isPlace
  have each :
      ∀ names ∈ progress.workspace.resourceNames root (placeOf root) target excluded,
        ∃ pass,
          (refreshResource hindrances (target.below names) (root.below names)).after progress =
            (.ok pass, progress) ∧ pass.copied = [] := by
    intro names member
    rcases (mem_resourceNames_iff plain.toWellFormed).1 member with ⟨file, avoided, included⟩
    rcases file with ⟨content, modified, mode, found⟩
    have plainNames := plain.plainName_of_holdsFile ⟨content, modified, mode, found⟩
    have isInput :
        progress.workspace.status (root.below names) =
          .ok (placeOf root ++ names, .file content modified mode) :=
      (status_below_iff plain rootLeads plainNames).2 ⟨rfl, found⟩
    have fresh :
        progress.workspace.isFresh (target.below names) (root.below names) = .ok true :=
      (isFresh_below_iff plain leads plainNames isInput).2
        (upToDate names content modified mode found avoided included)
    refine ⟨⟨[], [target.below names]⟩, ?_, rfl⟩
    rw [refreshResource, after_bind_of_ok (after_get progress), ofSystem, fresh]
    rfl
  rcases after_mapM_of_same each with ⟨passes, done, nothing⟩
  refine ⟨ResourceReport.ofPasses passes, ?_, copied_ofPasses_eq_nil nothing⟩
  rw [after_copyResources plain rootLeads (same_standardInput_of_isAbsolute rootAbsolute),
    after_bind_of_ok done]
  rfl

/-! ## Whole builds -/

/-- There is nothing to do for a plan. -/
structure UpToDate (workspace : Workspace) (plan : Plan) : Prop where
  plain : workspace.tree.Plain
  absolute : plan.target.isAbsolute = true
  leads : workspace.LeadsToDirectory plan.target (placeOf plan.target)
  artifacts : workspace.ArtifactsUpToDate plan.target plan.definitions plan.namespaces
  roots : ∀ root ∈ plan.sources.roots,
    root.isAbsolute = true ∧ workspace.isDirectory root = true
  files : ∀ file ∈ plan.sources.files, file.isAbsolute = true
  copies : ∀ root ∈ plan.sources.roots,
    CopiesUpToDate workspace root plan.target plan.namespaces
  unowned : ∀ source ∈ plan.sources.roots ++ plan.sources.files,
    ∀ file ∈ workspace.listedFiles source, ∀ language : Language, language.owns file = false

namespace UpToDate

theorem fillTarget
    (upToDate : UpToDate progress.workspace plan) (tools : Tools) :
    ∃ passes, (fillTarget tools plan).after progress = (.ok (false, passes), progress) ∧
      ∀ pass ∈ passes, pass.copied = [] := by
  have batch :
      (compileNamespaces tools plan.namespaces plan.definitions plan.classpath
        plan.target).after progress = (.ok false, progress) := by
    rw [compileNamespaces, after_bind_of_ok (after_get progress), ofSystem,
      isBatchDue_eq_ok_false_iff.2 upToDate.artifacts]
    rfl
  have making : (makeDirectories plan.target).after progress = (.ok (), progress) := by
    rw [after_makeDirectories, makeDirectories_of_isDirectory upToDate.plain upToDate.absolute
      (isDirectory_iff_leadsToDirectory.2 ⟨_, upToDate.leads⟩)]
    rfl
  have passing :
      ∀ root ∈ plan.sources.roots, ∃ pass,
        (copyResources tools.hindrances root plan.target plan.namespaces).after progress =
            (.ok pass, progress) ∧
          pass.copied = [] := by
    intro root member
    exact copyResources_of_upToDate upToDate.plain upToDate.leads (upToDate.roots root member).1
      (upToDate.roots root member).2 (upToDate.copies root member)
  rcases after_mapM_of_same passing with ⟨passes, passed, nothing⟩
  refine ⟨passes, ?_, nothing⟩
  rw [Build.fillTarget, after_bind_of_ok batch, after_bind_of_ok making, after_bind_of_ok passed]
  rfl

theorem finish
    (upToDate : UpToDate progress.workspace plan) (tools : Tools) (options : BuildOptions)
    (filled : Bool × List ResourceReport) :
    (finish tools options plan filled).after progress =
      (.ok (reportOf plan filled []), progress) := by
  have absolute :
      ∀ source ∈ plan.sources.roots ++ plan.sources.files, source.isAbsolute = true := by
    intro source member
    rcases List.mem_append.1 member with inRoots | inFiles
    · exact (upToDate.roots source inRoots).1
    · exact upToDate.files source inFiles
  have listed := distinctFiles_eq upToDate.plain absolute
  have nothing :=
    shares_of_unowned options.policy fun file member => by
      rcases exists_source_of_mem_distinctFiles upToDate.plain absolute listed member with
        ⟨source, inSources, contributed⟩
      exact upToDate.unowned source inSources file contributed
  refine finish_eq_ok_iff.2 ⟨_, [], listed, ?_, ?_⟩
  · rw [nothing]
  · rw [nothing, List.append_nil]
    rfl

end UpToDate

/-- A build with nothing to do succeeds, runs no command, and leaves everything as it is. -/
theorem compile_of_upToDate
    {sources : List Path} {target : Path}
    (planned : readPlan tools sources target dependencies options workspace = .ok plan)
    (upToDate : UpToDate workspace plan) :
    ∃ report progress,
      (compile tools sources target dependencies options).on workspace = (.ok report, progress) ∧
        report.namespaces = plan.namespaces ∧ report.classpath = plan.classpath ∧
          report.copied = [] ∧ report.didNothing = true ∧
            progress.commands = [] ∧ progress.workspace = workspace := by
  have reads := reads_makePlan tools sources target dependencies options
  have begun : readPlan tools sources target dependencies options
      (Progress.start workspace).workspace = .ok plan :=
    planned
  rcases reads.after_of_ok begun with ⟨notices, planning⟩
  have underway : UpToDate (Progress.mk workspace [] notices).workspace plan := upToDate
  rcases underway.fillTarget tools with ⟨passes, filling, nothing⟩
  have finishing := underway.finish tools options (false, passes)
  have copied : (ResourceReport.ofPasses passes).copied = [] := copied_ofPasses_eq_nil nothing
  refine ⟨reportOf plan (false, passes) [], ⟨workspace, [], notices⟩, ?_, rfl, rfl, copied, ?_,
    rfl, rfl⟩
  · rw [on_eq_after, compile_eq, after_bind_of_ok planning]
    simp only [Progress.start]
    rw [after_bind_of_ok filling, finishing]
  · simp [BuildReport.didNothing, reportOf, copied]

end Build

end ClojureBuild
