import ClojureBuild.Build.Project
import ClojureBuild.Proofs.Build.Detection
import ClojureBuild.Proofs.Build.Sources
import ClojureBuild.Proofs.Shares

/-!
# The plan of a build

A build first finds out what there is to do, without changing the workspace.  Then it fills the
target, by the batch and by copying resources, and at last it delegates the secondary sources.
-/

namespace ClojureBuild

/-- What a build has found out before it changes anything. -/
structure Plan where
  target : Path
  sources : Sources
  namespaces : List Namespace
  definitions : List Definition
  classpath : Classpath

namespace Build

variable {progress later : Progress} {sources : List Path} {target : Path} {tools : Tools}
variable {dependencies : List Dependency} {options : BuildOptions} {plan : Plan}

/-- Find out what there is to do. -/
def makePlan (tools : Tools) (sources : List Path) (target : Path)
    (dependencies : List Dependency) (options : BuildOptions) : Build Plan := do
  let target ← absolute target
  let split ← gatherSources sources
  let namespaces ← chooseNamespaces options split.roots
  let definitions ← ofExcept id ((← get).workspace.definitionsOf split.roots namespaces)
  let classpath ← searchOrder tools.resolver dependencies split.roots tools.toolchain.runtimeJar
  return ⟨target, split, namespaces, definitions, classpath⟩

/-- Run the batch if need be, make the target and copy the resources. -/
def fillTarget (tools : Tools) (plan : Plan) : Build (Bool × List ResourceReport) := do
  let compiled ←
    compileNamespaces tools plan.namespaces plan.definitions plan.classpath plan.target
  makeDirectories plan.target
  let passes ← plan.sources.roots.mapM fun root =>
    copyResources tools.hindrances root plan.target plan.namespaces
  return (compiled, passes)

/-- Delegate the secondary sources, and report what was done. -/
def finish (tools : Tools) (options : BuildOptions) (plan : Plan)
    (filled : Bool × List ResourceReport) : Build BuildReport := do
  let files ← ofReported
    ((← get).workspace.distinctFiles (plan.sources.roots ++ plan.sources.files))
  let shares := options.policy.shares files
  delegate tools.compilers plan.classpath plan.target shares
  let resources := ResourceReport.ofPasses filled.2
  return {
    target := plan.target
    namespaces := plan.namespaces
    classpath := plan.classpath
    compiled := filled.1
    copied := resources.copied
    unchanged := resources.unchanged
    secondary := shares.map Share.language }

/-- A build makes its plan, fills the target and finishes. -/
theorem compile_eq (tools : Tools) (sources : List Path) (target : Path)
    (dependencies : List Dependency) (options : BuildOptions) :
    compile tools sources target dependencies options =
      makePlan tools sources target dependencies options >>= fun plan =>
        fillTarget tools plan >>= fun filled => finish tools options plan filled := by
  simp only [compile, makePlan, fillTarget, finish, bind_assoc, pure_bind]

theorem compile_eq_ok_iff {workspace : Workspace} {report : BuildReport} :
    (compile tools sources target dependencies options).on workspace = (.ok report, later) ↔
      ∃ plan planned filled reached,
        (makePlan tools sources target dependencies options).on workspace = (.ok plan, planned) ∧
          (fillTarget tools plan).after planned = (.ok filled, reached) ∧
            (finish tools options plan filled).after reached = (.ok report, later) := by
  rw [on_eq_after, compile_eq, after_bind_eq_ok_iff]
  simp only [after_bind_eq_ok_iff]
  constructor
  · intro built
    obtain ⟨plan, planned, planning, filled, reached, filling, finishing⟩ := built
    exact ⟨plan, planned, filled, reached, planning, filling, finishing⟩
  · intro built
    obtain ⟨plan, planned, filled, reached, planning, filling, finishing⟩ := built
    exact ⟨plan, planned, planning, filled, reached, filling, finishing⟩

/-- What a build reports when it finishes. -/
def reportOf (plan : Plan) (filled : Bool × List ResourceReport) (shares : List Share) :
    BuildReport where
  target := plan.target
  namespaces := plan.namespaces
  classpath := plan.classpath
  compiled := filled.1
  copied := (ResourceReport.ofPasses filled.2).copied
  unchanged := (ResourceReport.ofPasses filled.2).unchanged
  secondary := shares.map Share.language

theorem finish_eq_ok_iff {filled : Bool × List ResourceReport} {report : BuildReport} :
    (finish tools options plan filled).after progress = (.ok report, later) ↔
      ∃ files notices,
        progress.workspace.distinctFiles (plan.sources.roots ++ plan.sources.files) =
            (.ok files, notices) ∧
          report = reportOf plan filled (options.policy.shares files) ∧
            (delegate tools.compilers plan.classpath plan.target
                (options.policy.shares files)).after
                { progress with notices := progress.notices ++ notices } = (.ok (), later) := by
  rw [finish, after_bind_of_ok (after_get progress), after_bind, after_ofReported]
  cases listed :
      progress.workspace.distinctFiles (plan.sources.roots ++ plan.sources.files) with
  | mk outcome notices =>
      cases outcome with
      | error failure =>
          simp [Except.mapError]
      | ok files =>
          simp only [Except.mapError, after_bind_eq_ok_iff, after_pure, Prod.mk.injEq,
            Except.ok.injEq]
          constructor
          · rintro ⟨value, reached, delegated, rfl, rfl⟩
            exact ⟨files, notices, ⟨rfl, rfl⟩, rfl, delegated⟩
          · rintro ⟨files, notices, ⟨rfl, rfl⟩, rfl, delegated⟩
            exact ⟨(), later, delegated, rfl, rfl⟩

/-! ## Sources -/

theorem isAbsolute_of_absolute
    {workspace : Workspace} {path absolutePath : Path}
    (found : workspace.absolute path = .ok absolutePath) : absolutePath.isAbsolute = true := by
  unfold Workspace.absolute at found
  split at found
  · next form =>
      cases found
      refine Path.isAbsolute_of_absolute? ?_ form
      simp [Workspace.currentPath, FileTree.pathOf, Path.isAbsolute]
  · cases found

/-- Put one more source with the others, after what a workspace holds at its absolute form. -/
def sortSource (workspace : Workspace) (split : Sources) (source : Path) :
    Except BuildError Sources :=
  match workspace.absolute source with
  | .error failure => .error (.file failure)
  | .ok path =>
      if workspace.isDirectory path then
        .ok (if split.roots.any path.same then split
          else { split with roots := split.roots ++ [path] })
      else if workspace.isFile path then
        .ok { split with files := split.files ++ [path] }
      else
        .ok split

theorem reads_addSource (split : Sources) (source : Path) :
    Reads (addSource split source) fun workspace => sortSource workspace split source := by
  intro progress
  rw [addSource, after_bind, after_absolute]
  simp only [sortSource]
  cases progress.workspace.absolute source with
  | error failure =>
      exact ⟨progress.notices, rfl⟩
  | ok path =>
      simp only [Except.mapError]
      rw [after_bind_of_ok (after_get progress)]
      split
      · split
        · exact ⟨progress.notices, rfl⟩
        · exact ⟨progress.notices, rfl⟩
      · split
        · exact ⟨progress.notices, rfl⟩
        · exact ⟨progress.notices ++ [.skippedSource source], rfl⟩

/-- Sources are sorted by what the workspace holds. -/
theorem reads_gatherSources (sources : List Path) :
    Reads (gatherSources sources) fun workspace =>
      sources.foldlM (sortSource workspace) ⟨[], []⟩ :=
  Reads.foldlM reads_addSource sources ⟨[], []⟩

/-- Sources sorted in a workspace: every root is a directory and every file a file, in absolute
form, and no directory among the sources is missing. -/
structure Sorted (workspace : Workspace) (sources : List Path) (split : Sources) : Prop where
  roots : ∀ root ∈ split.roots,
    workspace.isDirectory root = true ∧ ∃ source ∈ sources, workspace.absolute source = .ok root
  files : ∀ file ∈ split.files,
    workspace.isFile file = true ∧ ∃ source ∈ sources, workspace.absolute source = .ok file
  complete : ∀ source ∈ sources, ∀ path,
    workspace.absolute source = .ok path → workspace.isDirectory path = true →
      ∃ root ∈ split.roots, path.same root = true

/-- Sources stay sorted when the next one is added to what it is, if at all. -/
theorem Sorted.extend
    {workspace : Workspace} {earlier : List Path} {split extended : Sources} {source path : Path}
    (sorted : Sorted workspace earlier split) (form : workspace.absolute source = .ok path)
    (roots : ∀ root ∈ extended.roots, root ∈ split.roots ∨
      (root = path ∧ workspace.isDirectory path = true))
    (files : ∀ file ∈ extended.files, file ∈ split.files ∨
      (file = path ∧ workspace.isFile path = true))
    (grows : ∀ root ∈ split.roots, root ∈ extended.roots)
    (new : workspace.isDirectory path = true → ∃ root ∈ extended.roots, path.same root = true) :
    Sorted workspace (earlier ++ [source]) extended where
  roots := by
    intro root member
    cases roots root member with
    | inl before =>
        obtain ⟨directory, other, listed, otherForm⟩ := sorted.roots root before
        exact ⟨directory, other, List.mem_append_left _ listed, otherForm⟩
    | inr isNew =>
        rw [isNew.1]
        exact ⟨isNew.2, source, by simp, form⟩
  files := by
    intro file member
    cases files file member with
    | inl before =>
        obtain ⟨isFile, other, listed, otherForm⟩ := sorted.files file before
        exact ⟨isFile, other, List.mem_append_left _ listed, otherForm⟩
    | inr isNew =>
        rw [isNew.1]
        exact ⟨isNew.2, source, by simp, form⟩
  complete := by
    intro other member found otherForm directory
    cases List.mem_append.1 member with
    | inl inEarlier =>
        obtain ⟨root, inRoots, same⟩ := sorted.complete other inEarlier found otherForm directory
        exact ⟨root, grows root inRoots, same⟩
    | inr isLast =>
        rw [List.mem_singleton.1 isLast, form] at otherForm
        cases otherForm
        exact new directory

theorem sorted_of_sortSource
    {workspace : Workspace} {earlier : List Path} {split extended : Sources} {source : Path}
    (sorted : Sorted workspace earlier split)
    (done : sortSource workspace split source = .ok extended) :
    Sorted workspace (earlier ++ [source]) extended := by
  unfold sortSource at done
  cases form : workspace.absolute source with
  | error failure =>
      simp [form] at done
  | ok path =>
      simp only [form] at done
      have noMore {held : List Path} {added : Prop} :
          ∀ item ∈ held, item ∈ held ∨ (item = path ∧ added) :=
        fun _ member => Or.inl member
      have oneMore {held : List Path} {added : Prop} (new : added) :
          ∀ item ∈ held ++ [path], item ∈ held ∨ (item = path ∧ added) := by
        intro item member
        rw [List.mem_append, List.mem_singleton] at member
        exact member.imp_right fun isNew => ⟨isNew, new⟩
      split at done
      · next directory =>
          split at done
          · next present =>
              cases done
              exact sorted.extend form noMore noMore (fun _ => id)
                fun _ => List.any_eq_true.1 present
          · cases done
            exact sorted.extend form (oneMore directory) noMore
              (fun _ => List.mem_append_left [path]) fun _ => ⟨path, by simp, path.same_self⟩
      · next noDirectory =>
          split at done
          · next isFile =>
              cases done
              exact sorted.extend form noMore (oneMore isFile) (fun _ => id)
                fun directory => absurd directory noDirectory
          · cases done
            exact sorted.extend form noMore noMore (fun _ => id)
              fun directory => absurd directory noDirectory

theorem sorted_of_foldlM
    {workspace : Workspace} {split : Sources}
    (done : sources.foldlM (sortSource workspace) ⟨[], []⟩ = .ok split) :
    Sorted workspace sources split := by
  have onward :
      ∀ (rest earlier : List Path) (start : Sources), Sorted workspace earlier start →
        rest.foldlM (sortSource workspace) start = .ok split →
          Sorted workspace (earlier ++ rest) split := by
    intro rest
    induction rest with
    | nil =>
        intro earlier start sorted done
        cases done
        simpa using sorted
    | cons source rest inductionHypothesis =>
        intro earlier start sorted done
        rw [List.foldlM_cons] at done
        cases first : sortSource workspace start source with
        | error failure =>
            rw [first] at done
            cases done
        | ok extended =>
            rw [first] at done
            have after :=
              inductionHypothesis (earlier ++ [source]) extended
                (sorted_of_sortSource sorted first) done
            simpa using after
  exact onward sources [] ⟨[], []⟩ ⟨by simp, by simp, by simp⟩ done

/-! ## What a plan is read off -/

/-- The namespaces of a build. -/
def readNamespaces (options : BuildOptions) (roots : List Path) (workspace : Workspace) :
    Except BuildError (List Namespace) :=
  match readLibs options.libs with
  | .error invalid => .error (.invalidNamespace invalid)
  | .ok (some libs) => .ok libs
  | .ok none => do return (← roots.mapM fun root => readBelow root workspace).flatten

theorem reads_chooseNamespaces (options : BuildOptions) (roots : List Path) :
    Reads (chooseNamespaces options roots) (readNamespaces options roots) := by
  intro progress
  rw [chooseNamespaces, after_bind, after_ofExcept]
  simp only [readNamespaces]
  cases readLibs options.libs with
  | error invalid =>
      exact ⟨progress.notices, rfl⟩
  | ok libs =>
      cases libs with
      | some named =>
          exact ⟨progress.notices, rfl⟩
      | none =>
          exact reads_namespacesOfRoots roots progress

/-- The classpath of a build. -/
def readOrder (resolver : Resolver) (dependencies : List Dependency) (roots : List Path)
    (runtime : Path) (workspace : Workspace) : Except BuildError Classpath := do
  let resolved ← dependencies.mapM fun dependency =>
    (resolver workspace dependency).mapError BuildError.unresolved
  let absoluteRoots ← roots.mapM fun root => (workspace.absolute root).mapError BuildError.file
  let last ← (workspace.absolute runtime).mapError BuildError.file
  return (Classpath.ofList (resolved ++ absoluteRoots)).endingIn last

theorem reads_searchOrder (resolver : Resolver) (dependencies : List Dependency)
    (roots : List Path) (runtime : Path) :
    Reads (searchOrder resolver dependencies roots runtime)
      (readOrder resolver dependencies roots runtime) := by
  have resolving (dependency : Dependency) :=
    Reads.look fun workspace => Reads.ofExcept .unresolved (resolver workspace dependency)
  have reading :=
    (Reads.mapM resolving dependencies).bind fun resolved =>
      (Reads.mapM Reads.absolute roots).bind fun absoluteRoots =>
        (Reads.absolute runtime).bind fun last =>
          Reads.pure ((Classpath.ofList (resolved ++ absoluteRoots)).endingIn last)
  exact reading

/-- The plan of a build. -/
def readPlan (tools : Tools) (sources : List Path) (target : Path)
    (dependencies : List Dependency) (options : BuildOptions) (workspace : Workspace) :
    Except BuildError Plan := do
  let target ← (workspace.absolute target).mapError BuildError.file
  let split ← sources.foldlM (sortSource workspace) ⟨[], []⟩
  let namespaces ← readNamespaces options split.roots workspace
  let definitions ← (workspace.definitionsOf split.roots namespaces).mapError id
  let classpath ←
    readOrder tools.resolver dependencies split.roots tools.toolchain.runtimeJar workspace
  return ⟨target, split, namespaces, definitions, classpath⟩

theorem reads_makePlan (tools : Tools) (sources : List Path) (target : Path)
    (dependencies : List Dependency) (options : BuildOptions) :
    Reads (makePlan tools sources target dependencies options)
      (readPlan tools sources target dependencies options) := by
  have ending (target : Path) (split : Sources) (namespaces : List Namespace)
      (definitions : List Definition) :=
    (reads_searchOrder tools.resolver dependencies split.roots tools.toolchain.runtimeJar).bind
      fun classpath => Reads.pure (Plan.mk target split namespaces definitions classpath)
  have defining (target : Path) (split : Sources) (namespaces : List Namespace) :=
    Reads.look fun workspace =>
      (Reads.ofExcept id (workspace.definitionsOf split.roots namespaces)).bind fun definitions =>
        ending target split namespaces definitions
  have reading :=
    (Reads.absolute target).bind fun target => (reads_gatherSources sources).bind fun split =>
      (reads_chooseNamespaces options split.roots).bind fun namespaces =>
        defining target split namespaces
  exact reading

theorem readPlan_eq_ok_iff {workspace : Workspace} :
    readPlan tools sources target dependencies options workspace = .ok plan ↔
      workspace.absolute target = .ok plan.target ∧
        sources.foldlM (sortSource workspace) ⟨[], []⟩ = .ok plan.sources ∧
          readNamespaces options plan.sources.roots workspace = .ok plan.namespaces ∧
            workspace.definitionsOf plan.sources.roots plan.namespaces =
                .ok plan.definitions ∧
              readOrder tools.resolver dependencies plan.sources.roots
                tools.toolchain.runtimeJar workspace = .ok plan.classpath := by
  have mapError_id :
      (workspace.definitionsOf plan.sources.roots plan.namespaces).mapError id =
        workspace.definitionsOf plan.sources.roots plan.namespaces := by
    cases workspace.definitionsOf plan.sources.roots plan.namespaces with
    | error failure =>
        rfl
    | ok definitions =>
        rfl
  constructor
  · intro made
    obtain ⟨outputs, form, made⟩ := bind_eq_ok_iff.1 made
    obtain ⟨split, sorted, made⟩ := bind_eq_ok_iff.1 made
    obtain ⟨namespaces, chosen, made⟩ := bind_eq_ok_iff.1 made
    obtain ⟨definitions, defined, made⟩ := bind_eq_ok_iff.1 made
    obtain ⟨classpath, ordered, made⟩ := bind_eq_ok_iff.1 made
    cases made
    rw [mapError_id] at defined
    exact ⟨mapError_eq_ok_iff.1 form, sorted, chosen, defined, ordered⟩
  · rintro ⟨form, sorted, chosen, defined, ordered⟩
    refine bind_eq_ok_iff.2 ⟨plan.target, mapError_eq_ok_iff.2 form, ?_⟩
    refine bind_eq_ok_iff.2 ⟨plan.sources, sorted, ?_⟩
    refine bind_eq_ok_iff.2 ⟨plan.namespaces, chosen, ?_⟩
    refine bind_eq_ok_iff.2 ⟨plan.definitions, by rw [mapError_id]; exact defined, ?_⟩
    exact bind_eq_ok_iff.2 ⟨plan.classpath, ordered, rfl⟩

/-- The namespaces of a plan are those that were asked for, or all that detection tells of. -/
theorem of_readNamespaces_eq_ok
    {workspace : Workspace} {roots : List Path} {namespaces : List Namespace}
    (chosen : readNamespaces options roots workspace = .ok namespaces) :
    readLibs options.libs = .ok (some namespaces) ∨
      (readLibs options.libs = .ok none ∧
        (∀ root ∈ roots, workspace.isDirectory root = true) ∧
          namespaces = (workspace.detected roots).map Definition.defined) := by
  unfold readNamespaces at chosen
  split at chosen
  · cases chosen
  · next named =>
      cases chosen
      exact Or.inl named
  · next detects =>
      obtain ⟨found, walked, last⟩ := bind_eq_ok_iff.1 chosen
      cases last
      obtain ⟨directories, told⟩ := detected_of_mapM_readBelow walked
      exact Or.inr ⟨detects, directories, told⟩

end Build

end ClojureBuild
