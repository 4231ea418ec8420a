import ClojureBuild.Proofs.Build.Faithful
import ClojureBuild.Proofs.Build.Plan

/-!
# Promised copies

Seen from a current directory a project has a layout.  A build that starts from a faithful workspace
leaves a faithful one, and when it succeeds there is a copy with the same bytes of every file below the
roots that is no source of a compiled namespace.
-/

namespace ClojureBuild

open Workspace

namespace BuildOptions

/-- Whether names lead to a file that builds copy, because no namespace has its source there or this
namespace is not compiled. -/
def copies (options : BuildOptions) (names : List String) : Bool :=
  match readLibs options.libs with
  | .error _ => false
  | .ok (some libs) => isResource libs names
  | .ok none => (Namespace.ofSourcePath? ⟨Text.joinWith "/" names⟩).isNone

end BuildOptions

/-- What all builds of a project are given. -/
structure Project where
  sources : List Path
  target : Path
  options : BuildOptions

namespace Project

/-- A path in absolute form, seen from a current directory, if it has one. -/
def anchor (current : Location) (path : Path) : Path :=
  (path.absolute? (FileTree.pathOf current)).getD path

/-- How a project lies, seen from a current directory. -/
def layout (project : Project) (current : Location) : Layout where
  sources := project.sources.map fun source => placeOf (anchor current source)
  target := placeOf (anchor current project.target)
  copies := project.options.copies

end Project

namespace Build

variable {start workspace : Workspace} {project : Project} {tools : Tools} {path found root : Path}
variable {dependencies : List Dependency} {options : BuildOptions} {plan : Plan}
variable {progress later : Progress} {layout : Layout} {names : List String}
variable {done : Location → List String → Prop}

theorem anchor_of_absolute (form : workspace.absolute path = .ok found) :
    Project.anchor workspace.current path = found := by
  unfold Workspace.absolute at form
  split at form
  · next absolutePath spelled =>
      cases form
      rw [Project.anchor, ← Workspace.currentPath, spelled, Option.getD_some]
  · cases form

/-! ## Roots -/

/-- A source of a project leads to a directory when a build begins. -/
def IsRoot (project : Project) (workspace : Workspace) (root : Path) : Prop :=
  (∃ source ∈ project.sources, workspace.absolute source = .ok root) ∧
    workspace.isDirectory root = true

/-- A source that is a directory is a root of the plan. -/
theorem IsRoot.exists_root
    {split : Sources} (isRoot : IsRoot project workspace root)
    (sorted : Sorted workspace project.sources split) :
    root.isAbsolute = true ∧
      ∃ other ∈ split.roots, other.isAbsolute = true ∧ placeOf other = placeOf root := by
  obtain ⟨⟨source, listed, form⟩, directory⟩ := isRoot
  obtain ⟨other, member, same⟩ := sorted.complete source listed root form directory
  obtain ⟨-, otherSource, -, otherForm⟩ := sorted.roots other member
  have absolute := isAbsolute_of_absolute form
  have otherAbsolute := isAbsolute_of_absolute otherForm
  refine ⟨absolute, other, member, otherAbsolute, ?_⟩
  rw [placeOf, placeOf, Path.steps_eq_of_same same]

/-! ## Which files are copied -/

/-- A file that no compiled namespace has for its source is one that builds copy. -/
theorem copies_of_isResource
    {roots : List Path} {namespaces : List Namespace} (plain : workspace.tree.Plain)
    (chosen : readNamespaces options roots workspace = .ok namespaces) (inRoots : root ∈ roots)
    (absolute : root.isAbsolute = true)
    (file : workspace.tree.HoldsFile (placeOf root ++ names)) (nonempty : names ≠ [])
    (included : isResource namespaces names = true) : options.copies names = true := by
  rcases of_readNamespaces_eq_ok chosen with named | ⟨detects, directories, rfl⟩
  · rw [BuildOptions.copies, named]
    exact included
  · obtain ⟨location, leads⟩ := isDirectory_iff_leadsToDirectory.1 (directories root inRoots)
    have isPlace := eq_placeOf_of_leadsToDirectory plain absolute leads
    subst isPlace
    simp only [BuildOptions.copies, detects, Option.isNone_iff_eq_none]
    by_contra spelled
    obtain ⟨defined, read⟩ := Option.ne_none_iff_exists'.1 spelled
    have plainNames : ∀ name ∈ names, PlainName name := by
      obtain ⟨content, modified, mode, held⟩ := file
      exact fun name member => (plain.fileName_of_mem held name member).toPlainName
    have isSource := (Namespace.ofSourcePath?_joinWith_eq_some_iff nonempty plainNames).1 read
    subst isSource
    have isFile : workspace.isFile (root.join defined.sourcePath) = true := by
      rw [Namespace.join_sourcePath]
      exact (isFile_below_iff plain leads defined.plainName_of_mem_sourceNames).2 file
    have member :=
      mem_detected_of_isFile plain leads (same_standardInput_of_isAbsolute absolute) inRoots isFile
    have compiled : defined ∈ (workspace.detected roots).map Definition.defined :=
      List.mem_map.2 ⟨_, member, rfl⟩
    simp [isResource, read, compiled] at included

/-- A file that builds copy is the source of no compiled namespace. -/
theorem isResource_of_copies
    {roots : List Path} {namespaces : List Namespace}
    (chosen : readNamespaces options roots workspace = .ok namespaces)
    (copied : options.copies names = true) : isResource namespaces names = true := by
  rcases of_readNamespaces_eq_ok chosen with named | ⟨detects, -, -⟩
  · rw [BuildOptions.copies, named] at copied
    exact copied
  · rw [BuildOptions.copies, detects] at copied
    simp only [Option.isNone_iff_eq_none] at copied
    simp [isResource, copied]

/-! ## Whole builds -/

/-- No command writes to the files below the roots, which stay as they are, or to their copies. -/
def ConsiderateRunner (layout : Layout) (start : Workspace) (runner : Runner) : Prop :=
  ∀ earlier command workspace, workspace.tree.Plain → layout.SameFiles start.tree workspace.tree →
    Considerate layout workspace (runner.run earlier command workspace).2

theorem runnerKeeps_of_considerate
    {runner : Runner} (considerate : ConsiderateRunner layout start runner)
    (done : Location → List String → Prop) :
    RunnerKeeps runner (Underway layout start done) :=
  fun earlier command workspace underway =>
    underway.of_considerate
      (considerate earlier command workspace underway.faithful.plain underway.sameFiles)

/-- No directory that is made on the way to a target lies below it. -/
def LeavesEmpty (target : Path) : Prop :=
  ∀ location, OnTheWay target location → ∀ names, names ≠ [] → location ≠ placeOf target ++ names

/-- A target that is spelled without steps back is reached without making anything below it. -/
theorem leavesEmpty_of_plain
    {target : Path} (plainSteps : ∀ step ∈ target.steps, PlainName step) : LeavesEmpty target := by
  rintro location ⟨initial, isInitial, rfl⟩ names nonempty same
  have initialPlain : ∀ step ∈ initial, PlainName step :=
    fun step member => plainSteps step (isInitial.subset member)
  rw [placeOf, FileTree.spell_of_plain [] initialPlain, FileTree.spell_of_plain [] plainSteps]
    at same
  have lengths := congrArg List.length same
  have shorter := isInitial.length_le
  have positive := List.length_pos_iff.2 nonempty
  simp only [List.nil_append, List.length_append] at lengths
  omega

/-- A plan that was made in a workspace fits the layout of its project. -/
structure Fitting (layout : Layout) (start : Workspace) (plan : Plan) : Prop where
  plain : start.tree.Plain
  apart : layout.Apart start.tree
  absolute : plan.target.isAbsolute = true
  place : placeOf plan.target = layout.target
  clear : LeavesEmpty plan.target
  roots : ∀ root ∈ plan.sources.roots,
    root.isAbsolute = true ∧ layout.Root (placeOf root)
  included : ∀ names, layout.copies names = true → isResource plan.namespaces names = true

/-- The files below the roots of a plan that are to be copied. -/
def Promised (layout : Layout) (start : Workspace) (plan : Plan) (source : Location)
    (names : List String) : Prop :=
  layout.Mirrors source names ∧ start.tree.HoldsFile (source ++ names) ∧
    ∃ root ∈ plan.sources.roots, placeOf root = source

namespace Fitting

theorem keeps_makeTarget (fitting : Fitting layout start plan) :
    KeepsWorkspace (Underway layout start done) (makeDirectories plan.target) := by
  intro progress underway
  rw [after_makeDirectories]
  refine underway.of_onlyMade
    (onlyMade_makeDirectories underway.faithful.plain fitting.absolute).1 ?_
  rintro source names mirrors - new onTheWay
  have notBelow := fitting.clear new onTheWay
  rw [fitting.place] at notBelow
  refine ⟨notBelow names mirrors.nonempty, fun holds => ?_⟩
  have nonempty : new ≠ [] := by
    rintro rfl
    exact List.append_ne_nil_of_right_ne_nil layout.target mirrors.nonempty holds.symm
  -- What is made in something below the target lies below the target, too.
  apply notBelow (names ++ [new.getLast nonempty]) (by simp)
  rw [← List.append_assoc, ← holds, List.dropLast_append_getLast]

theorem keeps_batch
    (fitting : Fitting layout start plan)
    (considerate : ConsiderateRunner layout start tools.runner) :
    KeepsWorkspace (Underway layout start done)
      (compileNamespaces tools plan.namespaces plan.definitions plan.classpath plan.target) :=
  (MakesTarget.of_keeps fitting.keeps_makeTarget).keepsWorkspace_compileNamespaces
    (runnerKeeps_of_considerate considerate done)

theorem keeps_pass
    (fitting : Fitting layout start plan) (done : Location → List String → Prop)
    (hindrances : Hindrances) (member : root ∈ plan.sources.roots) :
    Keeps (Passing layout start plan.target done)
      (copyResources hindrances root plan.target plan.namespaces) :=
  keeps_copyResources fitting.plain fitting.apart (fitting.roots root member).1
    (fitting.roots root member).2

/-- Filling the target keeps what a build keeps. -/
theorem keeps_fillTarget
    (fitting : Fitting layout start plan)
    (considerate : ConsiderateRunner layout start tools.runner) :
    KeepsWorkspace (Underway layout start done) (fillTarget tools plan) := by
  refine (fitting.keeps_batch considerate).bind fun {isCompiled _ reached} underway _ => ?_
  have making := fitting.keeps_makeTarget reached underway
  have leads := onlyMade_makeDirectories underway.faithful.plain fitting.absolute
  rw [after_bind]
  rw [after_makeDirectories] at making ⊢
  cases outcome : (reached.workspace.makeDirectories plan.target).1 with
  | error failure =>
      exact making
  | ok value =>
      have passing :
          Passing layout start plan.target done
            { reached with workspace := (reached.workspace.makeDirectories plan.target).2 } :=
        ⟨making, fitting.place ▸ leads.2 outcome⟩
      have passes :
          Keeps (Passing layout start plan.target done)
            (plan.sources.roots.mapM (fun root =>
                copyResources tools.hindrances root plan.target plan.namespaces) >>= fun passes =>
              pure (isCompiled, passes)) := by
        exact Keeps.bind (Keeps.mapM fun root member => fitting.keeps_pass done _ member)
          fun held _ => held
      exact (passes _ passing).underway

/-- Once the target is filled, every promised copy is there. -/
theorem underway_of_fillTarget
    (fitting : Fitting layout start plan)
    (considerate : ConsiderateRunner layout start tools.runner)
    (underway : Underway layout start done progress.workspace) {filled : Bool × List ResourceReport}
    (ran : (fillTarget tools plan).after progress = (.ok filled, later)) :
    Underway layout start (Promised layout start plan) later.workspace := by
  have kept := fitting.keeps_fillTarget considerate progress underway
  rw [ran] at kept
  refine kept.restate ?_
  rintro source names ⟨mirrors, file, root, member, rfl⟩
  refine ⟨mirrors, ?_⟩
  obtain ⟨isCompiled, compiled, batch, ran⟩ := after_bind_eq_ok_iff.1 ran
  have batchKept := fitting.keeps_batch considerate progress underway
  rw [batch] at batchKept
  obtain ⟨value, ready, making, ran⟩ := after_bind_eq_ok_iff.1 ran
  have readyKept := fitting.keeps_makeTarget compiled batchKept
  have leads := (onlyMade_makeDirectories batchKept.faithful.plain fitting.absolute).2
  rw [making] at readyKept
  rw [after_makeDirectories, Prod.mk.injEq, mapError_eq_ok_iff] at making
  obtain ⟨outcome, rfl⟩ := making
  obtain ⟨passes, final, passed, last⟩ := after_bind_eq_ok_iff.1 ran
  cases last
  have copies :=
    achieved_of_after_mapM member
      (fun other inRoots => fitting.keeps_pass done _ inRoots)
      (fun {report reached next} passing one => by
        have copy :=
          hasCopy_of_copyResources fitting.plain fitting.apart fitting.place
            (fitting.roots root member).1 passing one mirrors file
            (fitting.included names mirrors.copied)
        have passingNext := fitting.keeps_pass done tools.hindrances member reached passing
        rw [one] at passingNext
        refine ⟨passingNext.underway.restate ?_, passingNext.leads⟩
        rintro other inner ⟨rfl, rfl⟩
        exact ⟨mirrors, copy⟩)
      (fun other inRoots =>
        fitting.keeps_pass (fun other inner => other = placeOf root ∧ inner = names) _ inRoots)
      ⟨readyKept, fitting.place ▸ leads outcome⟩ passed
  exact (copies.underway.copied _ _ ⟨rfl, rfl⟩).2

end Fitting

theorem keeps_finish
    {settings : CompileSettings} (considerate : ConsiderateRunner layout start tools.runner)
    (programs : tools.compilers = compilerPrograms tools.runner settings)
    (options : BuildOptions) (plan : Plan) (filled : Bool × List ResourceReport) :
    KeepsWorkspace (Underway layout start done) (finish tools options plan filled) := by
  intro progress underway
  rw [finish, after_bind_of_ok (after_get progress), after_bind, after_ofReported]
  cases (progress.workspace.distinctFiles (plan.sources.roots ++ plan.sources.files)).1 with
  | error failure =>
      exact underway
  | ok files =>
      simp only [Except.mapError, programs]
      have delegated :=
        keepsWorkspace_delegate (runnerKeeps_of_considerate considerate done) settings
          plan.classpath plan.target (options.policy.shares files)
      refine Keeps.bind delegated ?_ _ underway
      intro value reached ended held _
      exact held

/-- Every source that is a directory lies apart from the target, and no relative path leads to a file
below one of them and to anything below another one. -/
structure Admissible (project : Project) (workspace : Workspace) : Prop where
  disjoint : ∀ source ∈ project.sources, ∀ root, workspace.absolute source = .ok root →
    workspace.isDirectory root = true →
      (project.layout workspace.current).Root (placeOf root)
  apart : (project.layout workspace.current).Apart workspace.tree

theorem fitting_of_readPlan
    (plain : start.tree.Plain) (admissible : Admissible project start)
    (clear : LeavesEmpty (Project.anchor start.current project.target))
    (planned : readPlan tools project.sources project.target dependencies project.options start =
      .ok plan) :
    Fitting (project.layout start.current) start plan := by
  obtain ⟨form, sorted, chosen, -, -⟩ := readPlan_eq_ok_iff.1 planned
  have isTarget := anchor_of_absolute form
  refine ⟨plain, admissible.apart, isAbsolute_of_absolute form, ?_, isTarget ▸ clear, ?_, ?_⟩
  · rw [Project.layout, isTarget]
  · intro root member
    obtain ⟨directory, source, listed, rootForm⟩ := (sorted_of_foldlM sorted).roots root member
    exact ⟨isAbsolute_of_absolute rootForm,
      admissible.disjoint source listed root rootForm directory⟩
  · exact fun names copied => isResource_of_copies chosen copied

/-- A whole build keeps what a build keeps, and when it succeeds the promised copies are there. -/
theorem underway_of_compile
    {settings : CompileSettings} (dependencies : List Dependency)
    (faithful : start.Faithful (project.layout start.current))
    (admissible : Admissible project start)
    (clear : LeavesEmpty (Project.anchor start.current project.target))
    (considerate : ConsiderateRunner (project.layout start.current) start tools.runner)
    (programs : tools.compilers = compilerPrograms tools.runner settings) :
    let result :=
      (compile tools project.sources project.target dependencies project.options).on start
    Underway (project.layout start.current) start (fun _ _ => False) result.2.workspace ∧
      ∀ report, result.1 = .ok report →
        ∃ plan,
          readPlan tools project.sources project.target dependencies project.options start =
              .ok plan ∧
            report.target = plan.target ∧ report.namespaces = plan.namespaces ∧
              Underway (project.layout start.current) start
                (Promised (project.layout start.current) start plan) result.2.workspace := by
  intro result
  have begin := Underway.begin faithful
  obtain ⟨notices, planning⟩ :=
    reads_makePlan tools project.sources project.target dependencies project.options
      (Progress.start start)
  have isResult :
      result = (compile tools project.sources project.target dependencies project.options).after
        (Progress.start start) :=
    rfl
  rw [isResult, compile_eq, after_bind, planning]
  cases planned :
      readPlan tools project.sources project.target dependencies project.options start with
  | error failure =>
      simp only [Progress.start, planned]
      exact ⟨begin, fun report contradiction => by cases contradiction⟩
  | ok plan =>
      simp only [Progress.start, planned]
      have fitting := fitting_of_readPlan faithful.plain admissible clear planned
      rw [after_bind]
      have kept := fitting.keeps_fillTarget considerate ⟨start, [], notices⟩ begin
      cases filling : (fillTarget tools plan).after ⟨start, [], notices⟩ with
      | mk outcome later =>
          rw [filling] at kept
          cases outcome with
          | error failure =>
              exact ⟨kept, fun report contradiction => by cases contradiction⟩
          | ok filled =>
              have promised := fitting.underway_of_fillTarget considerate begin filling
              have finished :=
                keeps_finish considerate programs project.options plan filled later promised
              refine ⟨finished.restate fun _ _ => False.elim, ?_⟩
              intro report succeeded
              obtain ⟨files, _, -, rfl, -⟩ := finish_eq_ok_iff.1 (Prod.ext succeeded rfl)
              exact ⟨plan, rfl, rfl, rfl, finished⟩

end Build

end ClojureBuild
