import ClojureBuild.Proofs.Build.Heedless
import ClojureBuild.Proofs.Build.Listing
import ClojureBuild.Proofs.Build.Preparation

/-!
# Redundant sources

A source adds nothing when an earlier one is the same directory or the same file, or when a walk of one
of the directories finds it.  A build without it ends in the same way, having run the same commands on
the same files.
-/

namespace ClojureBuild.Build

open Workspace

variable {α β : Type} {tools : Tools} {target : Path} {dependencies : List Dependency}
variable {options : BuildOptions} {start : Workspace} {sources front rest : List Path}
variable {source path : Path} {plan : Plan}

/-! ## The same but for notices -/

/-- Two results of builds differ in nothing but notices. -/
structure SameEffects (first second : Except BuildError α × Progress) : Prop where
  outcome : first.1 = second.1
  commands : first.2.commands = second.2.commands
  workspace : first.2.workspace = second.2.workspace

theorem Heedless.sameEffects {build : Build α} (heedless : Heedless build)
    {first second : Progress} (commands : first.commands = second.commands)
    (workspace : first.workspace = second.workspace) :
    SameEffects (build.after first) (build.after second) := by
  have alike (progress : Progress) :
      build.after progress =
        ((build.after { progress with notices := [] }).1,
          (build.after { progress with notices := [] }).2.precededBy progress.notices) := by
    rw [← heedless]
    simp [Progress.precededBy]
  have same : { first with notices := [] } = { second with notices := ([] : List Notice) } := by
    rw [commands, workspace]
  rw [alike first, alike second, same]
  exact ⟨rfl, rfl, rfl⟩

theorem SameEffects.bind {first second : Build α} {next later : α → Build β}
    {progress other : Progress}
    (same : SameEffects (first.after progress) (second.after other))
    (onward : ∀ {value reached otherReached}, first.after progress = (.ok value, reached) →
      reached.commands = otherReached.commands → reached.workspace = otherReached.workspace →
        SameEffects ((next value).after reached) ((later value).after otherReached)) :
    SameEffects ((first >>= next).after progress) ((second >>= later).after other) := by
  obtain ⟨outcome, commands, workspace⟩ := same
  rw [after_bind, after_bind]
  cases done : first.after progress with
  | mk result reached =>
      cases otherDone : second.after other with
      | mk otherResult otherReached =>
          rw [done, otherDone] at outcome commands workspace
          dsimp only at outcome commands workspace
          rw [← outcome]
          cases result with
          | error failure =>
              exact ⟨rfl, commands, workspace⟩
          | ok value =>
              exact onward done commands workspace

/-! ## Sorting one more source -/

/-- Sources with other files in front of theirs. -/
def prependFiles (files : List Path) (split : Sources) : Sources :=
  ⟨split.roots, files ++ split.files⟩

theorem sortSource_prependFiles (files : List Path) (split : Sources) :
    sortSource start (prependFiles files split) source =
      (sortSource start split source).map (prependFiles files) := by
  simp only [sortSource]
  cases start.absolute source with
  | error failure =>
      rfl
  | ok path =>
      dsimp only
      split
      · cases present : split.roots.any path.same with
        | true =>
            simp [prependFiles, present, Except.map]
        | false =>
            simp [prependFiles, present, Except.map]
      · split
        · simp [Except.map, prependFiles]
        · rfl

theorem foldlM_sortSource_prependFiles (files : List Path) (split : Sources) :
    sources.foldlM (sortSource start) (prependFiles files split) =
      (sources.foldlM (sortSource start) split).map (prependFiles files) := by
  induction sources generalizing split with
  | nil =>
      rfl
  | cons source rest inductionHypothesis =>
      rw [List.foldlM_cons, List.foldlM_cons, sortSource_prependFiles]
      cases sortSource start split source with
      | error failure =>
          rfl
      | ok extended =>
          exact inductionHypothesis extended

/-- Sorting goes on the same way after files of any kind. -/
theorem foldlM_sortSource_files (roots files : List Path) :
    sources.foldlM (sortSource start) ⟨roots, files⟩ =
      (sources.foldlM (sortSource start) ⟨roots, []⟩).map (prependFiles files) := by
  rw [← foldlM_sortSource_prependFiles, prependFiles, List.append_nil]

/-- A plain file among sorted sources is one of the files. -/
theorem mem_files_of_foldlM {split : Sources} (member : source ∈ sources)
    (form : start.absolute source = .ok path) (isFile : start.isFile path = true)
    (sorted : sources.foldlM (sortSource start) ⟨[], []⟩ = .ok split) : path ∈ split.files := by
  obtain ⟨front, rest, isSplit⟩ := List.append_of_mem member
  rw [isSplit, List.foldlM_append] at sorted
  obtain ⟨before, -, sorted⟩ := bind_eq_ok_iff.1 sorted
  have added : sortSource start before source = .ok ⟨before.roots, before.files ++ [path]⟩ := by
    simp [sortSource, form, isFile, isDirectory_eq_false_of_isFile isFile]
  rw [List.foldlM_cons, added] at sorted
  change rest.foldlM (sortSource start) ⟨before.roots, before.files ++ [path]⟩ = .ok split at sorted
  rw [foldlM_sortSource_files] at sorted
  cases later : rest.foldlM (sortSource start) ⟨before.roots, []⟩ with
  | error failure =>
      rw [later] at sorted
      cases sorted
  | ok behind =>
      rw [later] at sorted
      cases sorted
      simp [prependFiles]

/-! ## Plans with other files -/

/-- The same plan with other files among its sources. -/
def withFiles (plan : Plan) (files : List Path) : Plan :=
  { plan with sources := ⟨plan.sources.roots, files⟩ }

theorem readPlan_withFiles {others : List Path} {roots files more : List Path}
    (sorted : sources.foldlM (sortSource start) ⟨[], []⟩ = .ok ⟨roots, files⟩)
    (otherSorted : others.foldlM (sortSource start) ⟨[], []⟩ = .ok ⟨roots, more⟩) :
    readPlan tools others target dependencies options start =
      (readPlan tools sources target dependencies options start).map (withFiles · more) := by
  simp only [readPlan, sorted, otherSorted]
  cases (start.absolute target).mapError BuildError.file with
  | error failure =>
      rfl
  | ok place =>
      cases chosen : readNamespaces options roots start with
      | error failure =>
          simp [chosen, bind, Except.bind, Except.map]
      | ok namespaces =>
          cases defined : (start.definitionsOf roots namespaces).mapError id with
          | error failure =>
              simp [chosen, defined, bind, Except.bind, Except.map]
          | ok definitions =>
              cases ordered : readOrder tools.resolver dependencies roots
                  tools.toolchain.runtimeJar start with
              | error failure =>
                  simp [chosen, defined, ordered, bind, Except.bind, Except.map]
              | ok classpath =>
                  simp [chosen, defined, ordered, bind, Except.bind, Except.map, pure, Except.pure,
                    withFiles]

/-! ## Building without a source -/

theorem sameEffects_finish {files : List Path} {filled : Bool × List ResourceReport}
    {first second : Progress} (compilers : ∀ unit, Heedless (compileUnit tools.compilers unit))
    (commands : first.commands = second.commands) (workspace : first.workspace = second.workspace)
    (listed : (first.workspace.distinctFiles (plan.sources.roots ++ files)).1 =
      (first.workspace.distinctFiles (plan.sources.roots ++ plan.sources.files)).1) :
    SameEffects ((finish tools options (withFiles plan files) filled).after first)
      ((finish tools options plan filled).after second) := by
  rw [finish, finish, after_bind_of_ok (after_get first), after_bind_of_ok (after_get second),
    after_bind, after_bind, after_ofReported, after_ofReported, ← workspace]
  dsimp only [withFiles]
  rw [listed]
  cases (first.workspace.distinctFiles (plan.sources.roots ++ plan.sources.files)).1 with
  | error failure =>
      exact ⟨rfl, commands, rfl⟩
  | ok files =>
      have told (report : BuildReport) :
          Heedless (delegate tools.compilers plan.classpath plan.target
            (options.policy.shares files) >>= fun _ => pure report) :=
        (Heedless.stepwise.delegate compilers _ _ _).bind fun _ => Heedless.pure report
      exact (told _).sameEffects commands rfl

/-- The workspace in which a build lists the files of its sources. -/
def listingWorkspace (tools : Tools) (sources : List Path) (target : Path)
    (dependencies : List Dependency) (options : BuildOptions) (start : Workspace) : Workspace :=
  ((makePlan tools sources target dependencies options >>= fillTarget tools).on start).2.workspace

theorem lasting_listingWorkspace (wellFormed : start.tree.WellFormed)
    (ran : RunnerKeeps tools.runner (Lasting start)) :
    Lasting start (listingWorkspace tools sources target dependencies options start) := by
  have made (path : Path) : KeepsWorkspace (Lasting start) (makeDirectories path) := by
    intro progress lasting
    rw [after_makeDirectories]
    exact lasting_makeDirectories lasting path
  have copied {workspace : Workspace} (lasting : Lasting start workspace)
      (hindrances : Hindrances) (source destination : Path) :
      Lasting start (workspace.copy hindrances source destination).2 :=
    lasting.trans (lasting_copy lasting.wellFormed source destination)
  have planned : KeepsWorkspace (Lasting start)
      (makePlan tools sources target dependencies options) :=
    (reads_makePlan tools sources target dependencies options).keeps fun _ _ lasting => lasting
  have filled : KeepsWorkspace (Lasting start)
      (makePlan tools sources target dependencies options >>= fillTarget tools) :=
    planned.bind fun lasting _ => keepsWorkspace_fillTarget made copied ran _ lasting
  exact filled (Progress.start start) (Lasting.refl wellFormed)

theorem sameEffects_of_plans {others : List Path} (files : List Path)
    (compilers : ∀ unit, Heedless (compileUnit tools.compilers unit))
    (plans : readPlan tools others target dependencies options start =
      (readPlan tools sources target dependencies options start).map (withFiles · files))
    (listed : ∀ plan, readPlan tools sources target dependencies options start = .ok plan →
      ((listingWorkspace tools others target dependencies options start).distinctFiles
          (plan.sources.roots ++ files)).1 =
        ((listingWorkspace tools others target dependencies options start).distinctFiles
          (plan.sources.roots ++ plan.sources.files)).1) :
    SameEffects ((compile tools others target dependencies options).on start)
      ((compile tools sources target dependencies options).on start) := by
  obtain ⟨notices, planning⟩ :=
    reads_makePlan tools sources target dependencies options (Progress.start start)
  obtain ⟨otherNotices, otherPlanning⟩ :=
    reads_makePlan tools others target dependencies options (Progress.start start)
  change _ = (readPlan tools sources target dependencies options start, Progress.mk start [] notices)
    at planning
  change _ =
    (readPlan tools others target dependencies options start, Progress.mk start [] otherNotices)
      at otherPlanning
  rw [plans] at otherPlanning
  rw [on_eq_after, on_eq_after, compile_eq, compile_eq]
  cases read : readPlan tools sources target dependencies options start with
  | error failure =>
      rw [read] at planning otherPlanning
      rw [after_bind_of_error planning, after_bind_of_error otherPlanning]
      exact ⟨rfl, rfl, rfl⟩
  | ok plan =>
      rw [read] at planning otherPlanning
      change _ = (Except.ok (withFiles plan files), Progress.mk start [] otherNotices)
        at otherPlanning
      rw [after_bind_of_ok planning, after_bind_of_ok otherPlanning]
      -- planning only looks, so that both targets are filled in the workspace of the start
      have filling : Heedless (fillTarget tools plan) :=
        Heedless.stepwise.fillTarget (heedless_compileNamespaces _ _ _ _ _)
      have same : SameEffects
          ((fillTarget tools (withFiles plan files)).after ⟨start, [], otherNotices⟩)
          ((fillTarget tools plan).after ⟨start, [], notices⟩) :=
        filling.sameEffects rfl rfl
      refine same.bind ?_
      intro filled reached otherReached done commands workspace
      have isListing :
          listingWorkspace tools others target dependencies options start = reached.workspace := by
        rw [listingWorkspace, on_eq_after, after_bind_of_ok otherPlanning, done]
      apply sameEffects_finish compilers commands workspace
      rw [← isListing]
      exact listed plan read

theorem sameEffects_of_unsorted {others : List Path} {failure : BuildError}
    (compilers : ∀ unit, Heedless (compileUnit tools.compilers unit))
    (unsorted : sources.foldlM (sortSource start) ⟨[], []⟩ = .error failure)
    (otherUnsorted : others.foldlM (sortSource start) ⟨[], []⟩ = .error failure) :
    SameEffects ((compile tools others target dependencies options).on start)
      ((compile tools sources target dependencies options).on start) := by
  apply sameEffects_of_plans [] compilers
  · simp only [readPlan, unsorted, otherUnsorted]
    cases (start.absolute target).mapError BuildError.file with
    | error failure =>
        rfl
    | ok place =>
        rfl
  · intro plan read
    have isSources := (readPlan_eq_ok_iff.1 read).2.1
    rw [unsorted] at isSources
    cases isSources

/-- Whatever a source adds to the files, it may be left out if the listing stays the same. -/
theorem sameEffects_of_added (extra : List Path)
    (compilers : ∀ unit, Heedless (compileUnit tools.compilers unit))
    (added : ∀ split, front.foldlM (sortSource start) ⟨[], []⟩ = .ok split →
      sortSource start split source = .ok ⟨split.roots, split.files ++ extra⟩)
    (listed : ∀ split roots later, front.foldlM (sortSource start) ⟨[], []⟩ = .ok split →
      (front ++ rest).foldlM (sortSource start) ⟨[], []⟩ = .ok ⟨roots, split.files ++ later⟩ →
        ((listingWorkspace tools (front ++ source :: rest) target dependencies options
            start).distinctFiles (roots ++ (split.files ++ extra ++ later))).1 =
          ((listingWorkspace tools (front ++ source :: rest) target dependencies options
            start).distinctFiles (roots ++ (split.files ++ later))).1) :
    SameEffects ((compile tools (front ++ source :: rest) target dependencies options).on start)
      ((compile tools (front ++ rest) target dependencies options).on start) := by
  cases sorted : front.foldlM (sortSource start) ⟨[], []⟩ with
  | error failure =>
      have stops (behind : List Path) :
          (front ++ behind).foldlM (sortSource start) ⟨[], []⟩ = .error failure := by
        rw [List.foldlM_append, sorted]
        rfl
      exact sameEffects_of_unsorted compilers (stops rest) (stops (source :: rest))
  | ok split =>
      -- the sources behind are sorted in the same way, after whatever files
      have shorter :
          (front ++ rest).foldlM (sortSource start) ⟨[], []⟩ =
            (rest.foldlM (sortSource start) ⟨split.roots, []⟩).map
              (prependFiles split.files) := by
        rw [List.foldlM_append, sorted, ← foldlM_sortSource_files]
        rfl
      have longer :
          (front ++ source :: rest).foldlM (sortSource start) ⟨[], []⟩ =
            (rest.foldlM (sortSource start) ⟨split.roots, []⟩).map
              (prependFiles (split.files ++ extra)) := by
        rw [List.foldlM_append, sorted, ← foldlM_sortSource_files]
        change (source :: rest).foldlM (sortSource start) split = _
        rw [List.foldlM_cons, added split sorted]
        rfl
      cases behind : rest.foldlM (sortSource start) ⟨split.roots, []⟩ with
      | error failure =>
          rw [behind] at shorter longer
          exact sameEffects_of_unsorted compilers shorter longer
      | ok later =>
          rw [behind] at shorter longer
          apply sameEffects_of_plans _ compilers (readPlan_withFiles shorter longer)
          intro plan read
          have isSources := (readPlan_eq_ok_iff.1 read).2.1
          rw [shorter] at isSources
          rw [← Except.ok.inj isSources]
          exact listed split later.roots later.files sorted shorter

/-- A walk from a directory among the sources finds a file, in one spelling or another. -/
def FoundByWalk (start walked : Workspace) (sources : List Path) (path : Path) : Prop :=
  ∃ source ∈ sources, ∃ root files file, start.absolute source = .ok root ∧
    start.isDirectory root = true ∧ (walked.walk root none).1 = .ok files ∧ file ∈ files ∧
      path.same file = true

/-- A source between others that adds nothing to them.  It repeats a directory or a plain file, or it
is a plain file that a walk of one of the directories finds: when the build lists its files, or already
at its start if its commands take nothing away. -/
inductive Redundant (tools : Tools) (target : Path) (dependencies : List Dependency)
    (options : BuildOptions) (start : Workspace) (front rest : List Path) (source : Path) : Prop
  | directory {earlier path other : Path} (form : start.absolute source = .ok path)
      (isDirectory : start.isDirectory path = true) (listed : earlier ∈ front)
      (earlierForm : start.absolute earlier = .ok other) (same : path.same other = true)
  | file {earlier path other : Path} (form : start.absolute source = .ok path)
      (isFile : start.isFile path = true) (listed : earlier ∈ front)
      (earlierForm : start.absolute earlier = .ok other) (earlierIsFile : start.isFile other = true)
      (same : path.same other = true)
  | walkedAtStart {path : Path} (form : start.absolute source = .ok path)
      (isFile : start.isFile path = true) (wellFormed : start.tree.WellFormed)
      (commands : RunnerKeeps tools.runner (Lasting start))
      (found : FoundByWalk start start (front ++ rest) path)
  | walkedWhenListing {path : Path} (form : start.absolute source = .ok path)
      (isFile : start.isFile path = true)
      (found : FoundByWalk start
        (listingWorkspace tools (front ++ source :: rest) target dependencies options start)
        (front ++ rest) path)

/-- A plain file may be left out if the sources before it and all directories contribute it. -/
theorem sameEffects_of_covers
    (compilers : ∀ unit, Heedless (compileUnit tools.compilers unit))
    (form : start.absolute source = .ok path) (isFile : start.isFile path = true)
    (covers : ∀ split roots later, front.foldlM (sortSource start) ⟨[], []⟩ = .ok split →
      (front ++ rest).foldlM (sortSource start) ⟨[], []⟩ = .ok ⟨roots, split.files ++ later⟩ →
        (listingWorkspace tools (front ++ source :: rest) target dependencies options
          start).Covers (roots ++ split.files) path) :
    SameEffects ((compile tools (front ++ source :: rest) target dependencies options).on start)
      ((compile tools (front ++ rest) target dependencies options).on start) := by
  apply sameEffects_of_added [path] compilers
  · intro split _
    simp [sortSource, form, isFile, isDirectory_eq_false_of_isFile isFile]
  · intro split roots later sorted whole
    have same := distinctFiles_of_covers (covers split roots later sorted whole) later
    simpa only [List.append_assoc, List.singleton_append] using same

/-- Among the sorted sources the directory that a walk started from has a path that is the same. -/
theorem exists_root_of_foundByWalk {walked : Workspace} {split : Sources}
    (sorted : Sorted start sources split) (isFile : start.isFile path = true)
    (found : FoundByWalk start walked sources path) :
    ∃ root ∈ split.roots, root.isAbsolute = true ∧ start.isDirectory root = true ∧
      path.same root = false ∧ ∃ files file, (walked.walk root none).1 = .ok files ∧
        file ∈ files ∧ path.same file = true := by
  obtain ⟨source, member, root, files, file, form, directory, isWalked, inWalk, same⟩ := found
  have rootAbsolute := isAbsolute_of_absolute form
  have differs {kept : Path} (sameKept : root.same kept = true) : path.same kept = false := by
    rw [← Bool.not_eq_true]
    intro isKept
    have isDirectory :=
      isDirectory_of_same rootAbsolute (Path.same_trans sameKept (Path.same_symm isKept)) directory
    rw [isDirectory_eq_false_of_isFile isFile] at isDirectory
    cases isDirectory
  obtain ⟨kept, inRoots, sameKept⟩ := sorted.complete source member root form directory
  have walkedDirectory : walked.isDirectory root = true := by
    by_contra noDirectory
    -- of anything else than a directory a walk finds nothing but its root
    rw [eq_of_mem_walk (Bool.eq_false_iff.2 noDirectory) isWalked inWalk,
      differs (Path.same_self root)] at same
    cases same
  obtain ⟨others, walkedKept, spelled, -⟩ :=
    walk_of_same rootAbsolute sameKept walkedDirectory isWalked
  obtain ⟨other, inOthers, sameOther⟩ := spelled file inWalk
  refine ⟨kept, inRoots, ?_, isDirectory_of_same rootAbsolute sameKept directory,
    differs sameKept, others, other, walkedKept, inOthers, Path.same_trans same sameOther⟩
  rw [← Path.isAbsolute_eq_of_same sameKept, rootAbsolute]

/-- Redundant sources change nothing: a build without one ends in the same way, with the same commands
and the same workspace. -/
theorem redundant_source_changes_nothing
    (compilers : ∀ unit, Heedless (compileUnit tools.compilers unit))
    (redundant : Redundant tools target dependencies options start front rest source) :
    SameEffects ((compile tools (front ++ source :: rest) target dependencies options).on start)
      ((compile tools (front ++ rest) target dependencies options).on start) := by
  cases redundant with
  | @directory earlier path other form isDirectory listed earlierForm same =>
      apply sameEffects_of_added [] compilers
      · intro split sorted
        have otherDirectory := isDirectory_of_same (isAbsolute_of_absolute form) same isDirectory
        obtain ⟨root, inRoots, sameRoot⟩ :=
          (sorted_of_foldlM sorted).complete earlier listed other earlierForm otherDirectory
        have present : split.roots.any path.same = true :=
          List.any_eq_true.2 ⟨root, inRoots, Path.same_trans same sameRoot⟩
        simp [sortSource, form, isDirectory, present]
      · intro split roots later _ _
        rw [List.append_nil]
  | @file earlier path other form isFile listed earlierForm earlierIsFile same =>
      apply sameEffects_of_covers compilers form isFile
      intro split roots later sorted _
      have member := mem_files_of_foldlM listed earlierForm earlierIsFile sorted
      apply covers_of_alike (List.mem_append_right roots member)
      apply Path.alike_of_same (isAbsolute_of_absolute earlierForm)
      · exact Path.same_symm same
      · exact endsInStep_of_isFile earlierIsFile
      · exact endsInStep_of_isFile isFile
  | @walkedAtStart path form isFile wellFormed commands found =>
      apply sameEffects_of_covers compilers form isFile
      intro split roots later _ whole
      obtain ⟨root, member, rootAbsolute, directory, -, files, file, walked, inWalk, same⟩ :=
        exists_root_of_foundByWalk (sorted_of_foldlM whole) isFile found
      exact covers_of_lasting (List.mem_append_left split.files member) rootAbsolute
        (isAbsolute_of_absolute form) wellFormed (lasting_listingWorkspace wellFormed commands) isFile
        directory walked inWalk same
  | @walkedWhenListing path form isFile found =>
      apply sameEffects_of_covers compilers form isFile
      intro split roots later _ whole
      obtain ⟨root, member, -, -, differs, files, file, walked, inWalk, same⟩ :=
        exists_root_of_foundByWalk (sorted_of_foldlM whole) isFile found
      exact covers_of_walk (List.mem_append_left split.files member)
        (isAbsolute_of_absolute form) isFile differs walked inWalk same

/-- A directory with one file. -/
def sourceDirectory : Workspace where
  tree :=
    ⟨[([], .directory ⟨0⟩), (["src"], .directory ⟨0⟩), (["src", "r.txt"], .file [] ⟨0⟩ 420)]⟩
  current := []
  home := ⟨"/home"⟩
  clock := ⟨0⟩

theorem file_of_listed_directory_changes_nothing :
    Redundant (toolsOf idleRunner) ⟨"out"⟩ [] ⟨none, .firstMatch⟩ sourceDirectory [⟨"src"⟩] []
        ⟨"//src/./r.txt"⟩ ∧
      SameEffects
        ((compile (toolsOf idleRunner) [⟨"src"⟩, ⟨"//src/./r.txt"⟩] ⟨"out"⟩ []
          ⟨none, .firstMatch⟩).on sourceDirectory)
        ((compile (toolsOf idleRunner) [⟨"src"⟩] ⟨"out"⟩ [] ⟨none, .firstMatch⟩).on
          sourceDirectory) := by
  have form : sourceDirectory.absolute ⟨"//src/./r.txt"⟩ = .ok ⟨"//src/r.txt"⟩ := by
    decide +kernel
  have isFile : sourceDirectory.isFile ⟨"//src/r.txt"⟩ = true := by decide +kernel
  have wellFormed : sourceDirectory.tree.WellFormed := by decide +kernel
  have found : FoundByWalk sourceDirectory sourceDirectory [⟨"src"⟩] ⟨"//src/r.txt"⟩ :=
    ⟨⟨"src"⟩, by simp, ⟨"/src"⟩, [⟨"/src/r.txt"⟩], ⟨"/src/r.txt"⟩, by decide +kernel,
      by decide +kernel, by decide +kernel, by simp, by decide +kernel⟩
  have redundant :
      Redundant (toolsOf idleRunner) ⟨"out"⟩ [] ⟨none, .firstMatch⟩ sourceDirectory [⟨"src"⟩] []
        ⟨"//src/./r.txt"⟩ :=
    .walkedAtStart form isFile wellFormed (fun _ _ _ lasting => lasting) found
  have compilers : ∀ unit, Heedless (compileUnit (toolsOf idleRunner).compilers unit) :=
    heedless_compilerPrograms idleRunner CompileSettings.default
  have same := redundant_source_changes_nothing compilers redundant
  rw [List.singleton_append, List.append_nil] at same
  exact ⟨redundant, same⟩

end ClojureBuild.Build
