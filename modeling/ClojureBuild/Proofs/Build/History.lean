import ClojureBuild.Proofs.Build.Promises

/-!
# Histories of a project

A history of a project begins with an empty target and goes on with edits below the roots and with
builds, successful or not.  After every build that succeeds the target holds a copy of every file that
is no source of a compiled namespace, with the bytes that the file has then: the same as a build into
an empty target would have left.
-/

namespace ClojureBuild

open Workspace Build

variable {project : Project} {layout : Layout} {before after : Workspace}

/-! ## Edits -/

/-- A file is created, replaced or written over, a directory is made or something is removed below a
root, or time goes by. -/
inductive Edit (layout : Layout) (before : Workspace) : Workspace → Prop
  | write {source : Location} {front : List String} {last : String} (root : layout.Root source)
      (fileName : FileName last) (directory : before.tree.HoldsDirectory (source ++ front))
      (noDirectory : ¬ before.tree.HoldsDirectory (source ++ front ++ [last]))
      (content : List UInt8) (mode : Nat) :
      Edit layout before (before.written (source ++ front ++ [last]) content mode)
  | overwrite {source : Location} {front : List String} {last : String} (root : layout.Root source)
      (file : before.tree.HoldsFile (source ++ front ++ [last])) (content : List UInt8)
      (mode : Nat) :
      Edit layout before
        (before.tick.put (source ++ front ++ [last]) (.file content before.tick.clock mode))
  | makeDirectory {source : Location} {front : List String} {last : String}
      (root : layout.Root source) (fileName : FileName last)
      (directory : before.tree.HoldsDirectory (source ++ front))
      (absent : before.tree.find? (source ++ front ++ [last]) = none) :
      Edit layout before (before.tick.enterDirectory (source ++ front ++ [last]))
  | remove {source : Location} {names : List String} (root : layout.Root source)
      (nonempty : names ≠ []) :
      Edit layout before
        { (before.changing (source ++ names).dropLast).tick with
          tree := before.tree.eraseAll (source ++ names) }
  | wait {later : Instant} (onward : before.clock.nanoseconds ≤ later.nanoseconds) :
      Edit layout before { before with clock := later }

namespace Edit

theorem stamped (plain : before.tree.Plain) (edit : Edit layout before after) :
    Stamped before after := by
  cases edit with
  | write root fileName directory noDirectory content mode =>
      exact stamped_written plain (plain_written plain directory fileName noDirectory content mode)
  | overwrite root file content mode =>
      have ticked : Stamped before before.tick := (Stamped.refl plain).tick
      have noDirectory := file.not_holdsDirectory
      obtain ⟨_, _, _, found⟩ := file
      exact ticked.put (plain.set (plain.parent found) (plain.named found) rfl
        fun isDirectory => absurd isDirectory noDirectory) between_tick
  | makeDirectory root fileName directory absent =>
      exact (onlyMade_enterDirectory plain directory fileName absent).toStamped
  | @remove source names root nonempty =>
      have changed := stamped_changing plain (source ++ names).dropLast
      refine ⟨plain.eraseAll (by simp [nonempty]), rfl, changed.clock, ?_⟩
      intro location entry found
      rw [FileTree.find?_eraseAll] at found
      split at found
      · cases found
      · exact changed.stamped found
  | wait onward =>
      exact ⟨plain, rfl, onward, fun found => Or.inl ⟨found, rfl⟩⟩

/-- An edit leaves what lies at or below the target alone. -/
theorem leftAlone (plain : before.tree.Plain) (edit : Edit layout before after)
    (inner : List String) : LeftAlone before after (layout.target ++ inner) := by
  cases edit with
  | @write source front last root fileName directory noDirectory content mode =>
      apply leftAlone_written
      · rw [List.append_assoc]
        exact (root.differs _ inner).symm
      · rw [List.dropLast_concat]
        exact (root.differs front inner).symm
  | @overwrite source front last root file content mode =>
      refine ⟨FileTree.find?_set_of_ne ?_ _ _, rfl⟩
      rw [List.append_assoc]
      exact (root.differs _ inner).symm
  | @makeDirectory source front last root fileName directory absent =>
      apply (onlyMade_enterDirectory plain directory fileName absent).leftAlone
      · rw [List.append_assoc]
        exact (root.differs _ inner).symm
      · rintro new rfl
        rw [List.dropLast_concat]
        exact root.differs front inner
  | @remove source names root nonempty =>
      constructor
      · refine (FileTree.find?_eraseAll _ _ _).trans (if_neg ?_)
        rintro ⟨rest, same⟩
        rw [List.append_assoc] at same
        exact root.differs (names ++ rest) inner same
      · refine lookup_changedAt.trans (if_neg ?_)
        rw [List.dropLast_append_of_ne_nil nonempty]
        exact (root.differs names.dropLast inner).symm
  | wait onward =>
      exact ⟨rfl, rfl⟩

end Edit

/-! ## Histories -/

/-- A build of a project, with its outcome and the workspace it leaves. -/
inductive Run (project : Project) (before : Workspace) :
    Except BuildError BuildReport → Workspace → Prop
  | build {tools : Tools} {settings : CompileSettings} {dependencies : List Dependency}
      {outcome : Except BuildError BuildReport} {progress : Progress}
      (programs : tools.compilers = compilerPrograms tools.runner settings)
      (considerate : ConsiderateRunner (project.layout before.current) before tools.runner)
      (ran : (compile tools project.sources project.target dependencies project.options).on before =
        (outcome, progress)) :
      Run project before outcome progress.workspace

/-- A workspace without links that is seen from a current directory and whose target is empty. -/
structure Fresh (project : Project) (current : Location) (workspace : Workspace) : Prop where
  plain : workspace.tree.Plain
  here : workspace.current = current
  empty : ∀ names, names ≠ [] →
    workspace.tree.find? ((project.layout current).target ++ names) = none

/-- The workspaces that a project gets to, step by step. -/
inductive History (project : Project) (current : Location) : Workspace → Prop
  | start {workspace : Workspace} (fresh : Fresh project current workspace) :
      History project current workspace
  | edit {before after : Workspace} (earlier : History project current before)
      (edit : Edit (project.layout current) before after) : History project current after
  | run {before after : Workspace} {outcome : Except BuildError BuildReport}
      (earlier : History project current before) (admissible : Admissible project before)
      (run : Run project before outcome after) : History project current after

/-- However its history goes on, a project stays faithful. -/
theorem faithful_of_history
    {current : Location} (history : History project current after)
    (clear : LeavesEmpty (Project.anchor current project.target)) :
    after.current = current ∧ after.Faithful (project.layout current) := by
  induction history with
  | start fresh =>
      exact ⟨fresh.here, faithful_of_empty fresh.plain fresh.empty⟩
  | edit earlier edit inductionHypothesis =>
      obtain ⟨here, faithful⟩ := inductionHypothesis
      have stamped := edit.stamped faithful.plain
      refine ⟨stamped.current.trans here, faithful.of_stamped stamped ?_⟩
      intro source names _ _
      exact edit.leftAlone faithful.plain names
  | run earlier admissible run inductionHypothesis =>
      obtain ⟨here, faithful⟩ := inductionHypothesis
      subst here
      cases run with
      | @build tools settings dependencies _ progress programs considerate ran =>
          have underway :=
            (underway_of_compile dependencies faithful admissible clear considerate programs).1
          rw [ran] at underway
          exact ⟨underway.current, underway.faithful⟩

/-! ## Builds that succeed -/

section Successful

variable {report : BuildReport} {root : Path} {names : List String} {content : List UInt8}

/-- A file with some bytes stands at a location. -/
def HoldsBytes (tree : FileTree) (location : Location) (content : List UInt8) : Prop :=
  ∃ modified mode, tree.find? location = some (.file content modified mode)

/-- After a build a file below a root has some bytes, and no compiled namespace has its source
there. -/
structure Due (project : Project) (before after : Workspace) (report : BuildReport) (root : Path)
    (names : List String) (content : List UInt8) : Prop where
  isRoot : IsRoot project before root
  file : HoldsBytes after.tree (placeOf root ++ names) content
  uncompiled : ∀ defined, Namespace.ofSourcePath? ⟨Text.joinWith "/" names⟩ = some defined →
    defined ∉ report.namespaces

/-- What a build that succeeds has planned and what it has reached. -/
theorem Run.planned
    (run : Run project before (.ok report) after)
    (faithful : before.Faithful (project.layout before.current))
    (admissible : Admissible project before)
    (clear : LeavesEmpty (Project.anchor before.current project.target)) :
    ∃ plan,
      Fitting (project.layout before.current) before plan ∧
        Sorted before project.sources plan.sources ∧
          readNamespaces project.options plan.sources.roots before = .ok report.namespaces ∧
            placeOf report.target = (project.layout before.current).target ∧
              Underway (project.layout before.current) before
                (Promised (project.layout before.current) before plan) after := by
  cases run with
  | @build tools settings dependencies _ progress programs considerate ran =>
      obtain ⟨-, succeeded⟩ :=
        underway_of_compile dependencies faithful admissible clear considerate programs
      rw [ran] at succeeded
      obtain ⟨plan, planned, isTarget, areNamespaces, underway⟩ := succeeded report rfl
      have fitting := fitting_of_readPlan faithful.plain admissible clear planned
      obtain ⟨-, sorted, chosen, -, -⟩ := readPlan_eq_ok_iff.1 planned
      exact ⟨plan, fitting, sorted_of_foldlM sorted, areNamespaces ▸ chosen,
        isTarget ▸ fitting.place, underway⟩

/-- A file that is due is one that builds copy, and it has been there before. -/
theorem Due.mirrors
    (due : Due project before after report root names content)
    (run : Run project before (.ok report) after)
    (faithful : before.Faithful (project.layout before.current))
    (admissible : Admissible project before)
    (clear : LeavesEmpty (Project.anchor before.current project.target)) :
    (project.layout before.current).Mirrors (placeOf root) names ∧
      HoldsBytes before.tree (placeOf root ++ names) content := by
  obtain ⟨plan, -, sorted, chosen, -, underway⟩ := run.planned faithful admissible clear
  obtain ⟨⟨⟨source, listed, form⟩, directory⟩, ⟨modified, mode, found⟩, uncompiled⟩ := due
  have isRoot := admissible.disjoint source listed root form directory
  have foundBefore := (underway.sameFiles _ isRoot names _ _ _).1 found
  refine ⟨?_, modified, mode, foundBefore⟩
  have file : before.tree.HoldsFile (placeOf root ++ names) := ⟨content, modified, mode, foundBefore⟩
  have nonempty : names ≠ [] := by
    rintro rfl
    obtain ⟨location, leads⟩ := isDirectory_iff_leadsToDirectory.1 directory
    have isPlace :=
      eq_placeOf_of_leadsToDirectory faithful.plain (isAbsolute_of_absolute form) leads
    subst isPlace
    rw [List.append_nil] at file
    exact file.not_holdsDirectory leads.holdsDirectory
  have included : isResource report.namespaces names = true := by
    rw [isResource, Bool.not_eq_true', Option.any_eq_false]
    intro defined read
    simpa using uncompiled defined read
  obtain ⟨-, other, member, absolute, samePlace⟩ :=
    IsRoot.exists_root ⟨⟨source, listed, form⟩, directory⟩ sorted
  exact ⟨isRoot, nonempty, copies_of_isResource faithful.plain chosen member absolute
    (samePlace ▸ file) nonempty included⟩

/-- After a build that succeeds the files that builds copy have their copies. -/
theorem Run.copy
    (run : Run project before (.ok report) after)
    (faithful : before.Faithful (project.layout before.current))
    (admissible : Admissible project before)
    (clear : LeavesEmpty (Project.anchor before.current project.target))
    (isRoot : IsRoot project before root)
    (mirrors : (project.layout before.current).Mirrors (placeOf root) names)
    (file : HoldsBytes before.tree (placeOf root ++ names) content) :
    HoldsBytes after.tree (placeOf report.target ++ names) content := by
  obtain ⟨plan, -, sorted, -, isTarget, underway⟩ := run.planned faithful admissible clear
  obtain ⟨-, other, member, -, samePlace⟩ := isRoot.exists_root sorted
  obtain ⟨modified, mode, found⟩ := file
  obtain ⟨-, bytes, stamp, otherMode, copied, copyMode, isSource, isCopy⟩ :=
    underway.copied _ _ ⟨mirrors, ⟨content, modified, mode, found⟩, other, member, samePlace⟩
  have isFile := (underway.sameFiles _ mirrors.root names _ _ _).1 isSource
  rw [found] at isFile
  cases isFile
  exact ⟨copied, copyMode, isTarget ▸ isCopy⟩

/-- After a build that succeeds, at the end of any history, a file below a root that is no source of a
compiled namespace has a copy with the bytes that it has now, and a build of the same files into an
empty target leaves the same copy. -/
theorem build_leaves_current_copies
    {current : Location} (history : History project current before)
    (admissible : Admissible project before)
    (clear : LeavesEmpty (Project.anchor current project.target))
    (run : Run project before (.ok report) after)
    (due : Due project before after report root names content) :
    HoldsBytes after.tree (placeOf report.target ++ names) content ∧
      ∀ {clean cleanAfter : Workspace} {cleanReport : BuildReport},
        Fresh project current clean → (project.layout current).SameFiles after.tree clean.tree →
          IsRoot project clean root → Admissible project clean →
            Run project clean (.ok cleanReport) cleanAfter →
              HoldsBytes cleanAfter.tree (placeOf cleanReport.target ++ names) content := by
  obtain ⟨rfl, faithful⟩ := faithful_of_history history clear
  obtain ⟨mirrors, file⟩ := due.mirrors run faithful admissible clear
  refine ⟨run.copy faithful admissible clear due.isRoot mirrors file, ?_⟩
  intro clean cleanAfter cleanReport fresh sameFiles cleanRoot cleanAdmissible cleanRun
  obtain ⟨modified, mode, found⟩ := due.file
  have cleanFile := (sameFiles _ mirrors.root names _ _ _).2 found
  obtain ⟨plain, here, empty⟩ := fresh
  rw [← here] at mirrors clear empty
  exact cleanRun.copy (faithful_of_empty plain empty) cleanAdmissible clear cleanRoot mirrors
    ⟨modified, mode, cleanFile⟩

end Successful

/-! ## One source -/

/-- A project with one source and without chosen namespaces. -/
def oneSource (target : Path) : Project :=
  ⟨[⟨"src"⟩], target, ⟨none, .firstMatch⟩⟩

/-- A source that holds one file. -/
def oneFile : Workspace where
  tree :=
    ⟨[([], .directory ⟨0⟩), (["src"], .directory ⟨0⟩), (["src", "r"], .file [1] ⟨0⟩ 420)]⟩
  current := []
  home := ⟨"/home"⟩
  clock := ⟨0⟩

theorem considerate_idleRunner (layout : Layout) (start : Workspace) :
    ConsiderateRunner layout start idleRunner :=
  fun _ _ workspace plain _ =>
    ⟨Stamped.refl plain, Layout.SameFiles.refl layout workspace.tree, fun _ _ _ _ => .refl workspace _⟩

theorem fresh_oneFile {target : Path} (place : placeOf (Project.anchor [] target) = ["out"]) :
    Fresh (oneSource target) [] oneFile := by
  refine ⟨by decide +kernel, rfl, ?_⟩
  intro names _
  have isTarget : ((oneSource target).layout []).target = ["out"] := place
  rw [isTarget]
  simp [FileTree.find?, oneFile, List.lookup_cons]

theorem sources_oneSource (target : Path) : ((oneSource target).layout []).sources = [["src"]] := by
  have place : placeOf (Project.anchor [] ⟨"src"⟩) = ["src"] := by
    decide +kernel
  simp [oneSource, Project.layout, place]

theorem root_oneSource {target : Path} (place : placeOf (Project.anchor [] target) = ["out"]) :
    ((oneSource target).layout []).Root ["src"] := by
  have isTarget : ((oneSource target).layout []).target = ["out"] := place
  exact ⟨by simp [sources_oneSource], by simp [isTarget], by simp [isTarget]⟩

/-- With a single source nothing can be below two of them. -/
theorem admissible_oneSource
    {target : Path} {workspace : Workspace} (here : workspace.current = [])
    (place : placeOf (Project.anchor [] target) = ["out"]) :
    Admissible (oneSource target) workspace := by
  refine ⟨?_, ?_⟩
  · intro source listed root form _
    have isSource : placeOf (Project.anchor [] ⟨"src"⟩) = ["src"] := by
      decide +kernel
    have only : source = ⟨"src"⟩ := List.mem_singleton.1 listed
    have isRoot := anchor_of_absolute form
    rw [here, only] at isRoot
    rw [here, ← isRoot, isSource]
    exact root_oneSource place
  · rw [here]
    intro first second firstRoot secondRoot _ _ _ _
    have isFirst := firstRoot.listed
    have isSecond := secondRoot.listed
    rw [sources_oneSource, List.mem_singleton] at isFirst isSecond
    rw [isFirst, isSecond]

theorem fileName_r : FileName "r" := by
  decide +kernel

theorem leavesEmpty_out : LeavesEmpty (Project.anchor [] ⟨"out"⟩) := by
  refine leavesEmpty_of_plain ?_
  have steps : (Project.anchor [] ⟨"out"⟩).steps = ["out"] := by
    decide +kernel
  have fileName : FileName "out" := by
    decide +kernel
  rw [steps]
  intro step member
  rw [List.mem_singleton.1 member]
  exact fileName.toPlainName

/-- What a build of one source does. -/
def buildOnce (runner : Runner) (target : Path) (workspace : Workspace) :
    Except BuildError BuildReport × Progress :=
  (compile (toolsOf runner) [⟨"src"⟩] target [] ⟨none, .firstMatch⟩).on workspace

/-- Whether a build succeeds without namespaces, for a target at a place, and leaves a workspace. -/
def leaves (result : Except BuildError BuildReport × Progress) (place : Location)
    (after : Workspace) : Bool :=
  (result.1.toOption.any fun report =>
    report.namespaces.isEmpty && placeOf report.target == place) && result.2.workspace == after

theorem of_leaves
    {result : Except BuildError BuildReport × Progress} {place : Location}
    (left : leaves result place after = true) :
    ∃ report progress,
      result = (.ok report, progress) ∧ report.namespaces = [] ∧
        placeOf report.target = place ∧ progress.workspace = after := by
  obtain ⟨outcome, progress⟩ := result
  cases outcome with
  | error failure =>
      cases left
  | ok report =>
      simp only [leaves, Except.toOption, Option.any_some, Bool.and_eq_true, beq_iff_eq,
        List.isEmpty_iff] at left
      exact ⟨report, progress, rfl, left.1.1, left.1.2, left.2⟩

theorem exists_run_of_leaves
    {target : Path} {place : Location}
    (left : leaves (buildOnce idleRunner target before) place after = true) :
    ∃ report,
      Run (oneSource target) before (.ok report) after ∧ report.namespaces = [] ∧
        placeOf report.target = place := by
  obtain ⟨report, progress, ran, nothing, isTarget, rfl⟩ := of_leaves left
  exact ⟨report, .build rfl (considerate_idleRunner _ _) ran, nothing, isTarget⟩

/-- The file has been copied. -/
def copiedFile : Workspace where
  tree := ⟨(["out", "r"], .file [1] ⟨2⟩ 420) :: (["out"], .directory ⟨1⟩) :: oneFile.tree.entries⟩
  current := []
  home := ⟨"/home"⟩
  clock := ⟨2⟩
  changes := [(["out"], ⟨2⟩), ([], ⟨1⟩)]

/-- After a first build the file is overwritten. -/
def overwritten : Workspace :=
  copiedFile.written ["src", "r"] [2] 420

theorem overwritten_copy_is_current :
    ∃ report after,
      Run (oneSource ⟨"out"⟩) overwritten (.ok report) after ∧
        HoldsBytes after.tree (placeOf report.target ++ ["r"]) [2] := by
  have place : placeOf (Project.anchor [] ⟨"out"⟩) = ["out"] := by
    decide +kernel
  have firstLeft : leaves (buildOnce idleRunner ⟨"out"⟩ oneFile) ["out"] copiedFile = true := by
    decide +kernel
  have secondLeft :
      leaves (buildOnce idleRunner ⟨"out"⟩ overwritten) ["out"]
        (overwritten.written ["out", "r"] [2] 420) = true := by
    decide +kernel
  obtain ⟨firstReport, firstRun, -, -⟩ := exists_run_of_leaves firstLeft
  obtain ⟨report, run, nothing, -⟩ := exists_run_of_leaves secondLeft
  have inSource : copiedFile.tree.HoldsDirectory (["src"] ++ []) := by
    decide +kernel
  have noDirectory : ¬ copiedFile.tree.HoldsDirectory (["src"] ++ [] ++ ["r"]) := by
    decide +kernel
  have history : History (oneSource ⟨"out"⟩) [] overwritten :=
    .edit (.run (.start (fresh_oneFile place)) (admissible_oneSource rfl place) firstRun)
      (.write (root_oneSource place) fileName_r inSource noDirectory [2] 420)
  have due : Due (oneSource ⟨"out"⟩) overwritten (overwritten.written ["out", "r"] [2] 420) report
      ⟨"/src"⟩ ["r"] [2] := by
    refine ⟨⟨⟨⟨"src"⟩, List.mem_cons_self, ?_⟩, ?_⟩, ⟨⟨3⟩, 420, ?_⟩, by simp [nothing]⟩
    · decide +kernel
    · decide +kernel
    · decide +kernel
  exact ⟨report, _, run, (build_leaves_current_copies history (admissible_oneSource rfl place)
    leavesEmpty_out run due).1⟩

/-- A directory stands where the copy belongs. -/
def directoryInPlace : Workspace where
  tree := ⟨(["out", "r"], .directory ⟨2⟩) :: (["out"], .directory ⟨1⟩) :: oneFile.tree.entries⟩
  current := []
  home := ⟨"/home"⟩
  clock := ⟨2⟩
  changes := [(["out"], ⟨2⟩), (["out", "r"], ⟨2⟩), ([], ⟨1⟩)]

/-- Copies are current however the target is spelled. -/
def CurrentForAnySpelling : Prop :=
  ∀ (project : Project) (current : Location) (before after : Workspace) (report : BuildReport)
      (root : Path) (names : List String) (content : List UInt8),
    History project current before → Admissible project before →
      Run project before (.ok report) after → Due project before after report root names content →
        HoldsBytes after.tree (placeOf report.target ++ names) content

/-- Where the target is spelled with a step back from below, a directory stands in place of a copy. -/
theorem not_currentForAnySpelling : ¬ CurrentForAnySpelling := by
  intro everywhere
  have place : placeOf (Project.anchor [] ⟨"out/r/.."⟩) = ["out"] := by
    decide +kernel
  have left :
      leaves (buildOnce idleRunner ⟨"out/r/.."⟩ oneFile) ["out"] directoryInPlace = true := by
    decide +kernel
  obtain ⟨report, run, nothing, isTarget⟩ := exists_run_of_leaves left
  have due : Due (oneSource ⟨"out/r/.."⟩) oneFile directoryInPlace report ⟨"/src"⟩ ["r"] [1] := by
    refine ⟨⟨⟨⟨"src"⟩, List.mem_cons_self, ?_⟩, ?_⟩, ⟨⟨0⟩, 420, ?_⟩, by simp [nothing]⟩
    · decide +kernel
    · decide +kernel
    · decide +kernel
  obtain ⟨modified, mode, copy⟩ :=
    everywhere _ _ _ _ _ _ _ _ (.start (fresh_oneFile place)) (admissible_oneSource rfl place) run
      due
  rw [isTarget] at copy
  cases copy

/-- Commands that write over a file of the source. -/
def carelessRunner : Runner :=
  ⟨fun _ _ workspace =>
    (.ok .silentSuccess,
      if workspace.tree.HoldsDirectory ["src"] ∧ ¬ workspace.tree.HoldsDirectory ["src", "r"] then
        workspace.written ["src", "r"] [2] 420
      else
        workspace)⟩

/-- Commands stamp what they write and leave the copies alone. -/
def SparesCopies (layout : Layout) (runner : Runner) : Prop :=
  ∀ earlier command workspace, workspace.tree.Plain →
    Stamped workspace (runner.run earlier command workspace).2 ∧
      ∀ names, LeftAlone workspace (runner.run earlier command workspace).2 (layout.target ++ names)

theorem sparesCopies_carelessRunner :
    SparesCopies ((oneSource ⟨"out"⟩).layout []) carelessRunner := by
  have isTarget : ((oneSource ⟨"out"⟩).layout []).target = ["out"] := by
    decide +kernel
  intro earlier command workspace plain
  rw [isTarget]
  simp only [carelessRunner]
  split
  · next writes =>
      refine ⟨stamped_written plain (plain_written plain writes.1 fileName_r writes.2 [2] 420), ?_⟩
      intro names
      exact leftAlone_written (by simp) (by simp) _ _
  · exact ⟨Stamped.refl plain, fun _ => .refl workspace _⟩

/-- A source that holds a file and a Java file. -/
def oneJavaFile : Workspace :=
  { oneFile with tree := oneFile.tree.set ["src", "A.java"] (.file [] ⟨0⟩ 420) }

/-- The copies of a file and a Java file, the first of which has been overwritten since. -/
def rewrittenSource : Workspace :=
  ((((oneJavaFile.tick.enterDirectory ["out"]).written ["out", "A.java"] [] 420).written
    ["out", "r"] [1] 420).written ["src", "r"] [2] 420)

/-- Copies are current even if commands write over sources. -/
def CurrentForAnyCommands : Prop :=
  ∀ (project : Project) (before : Workspace) (tools : Tools) (settings : CompileSettings)
      (report : BuildReport) (progress : Progress) (root : Path) (names : List String)
      (content : List UInt8),
    Fresh project before.current before → Admissible project before →
      LeavesEmpty (Project.anchor before.current project.target) →
        tools.compilers = compilerPrograms tools.runner settings →
          SparesCopies (project.layout before.current) tools.runner →
            (compile tools project.sources project.target [] project.options).on before =
                (.ok report, progress) →
              Due project before progress.workspace report root names content →
                HoldsBytes progress.workspace.tree (placeOf report.target ++ names) content

/-- Where a command writes over a source after it was copied, the copy is out of date. -/
theorem not_currentForAnyCommands : ¬ CurrentForAnyCommands := by
  intro everywhere
  have place : placeOf (Project.anchor [] ⟨"out"⟩) = ["out"] := by
    decide +kernel
  have fresh : Fresh (oneSource ⟨"out"⟩) [] oneJavaFile := by
    refine ⟨by decide +kernel, rfl, ?_⟩
    intro names _
    have isTarget : ((oneSource ⟨"out"⟩).layout []).target = ["out"] := place
    rw [isTarget, oneJavaFile, FileTree.find?_set_of_ne (by simp)]
    simp [FileTree.find?, oneFile, List.lookup_cons]
  have left :
      leaves (buildOnce carelessRunner ⟨"out"⟩ oneJavaFile) ["out"] rewrittenSource = true := by
    decide +kernel
  obtain ⟨report, progress, ran, nothing, isTarget, isAfter⟩ := of_leaves left
  have due :
      Due (oneSource ⟨"out"⟩) oneJavaFile progress.workspace report ⟨"/src"⟩ ["r"] [2] := by
    rw [isAfter]
    refine ⟨⟨⟨⟨"src"⟩, List.mem_cons_self, ?_⟩, ?_⟩, ⟨⟨4⟩, 420, ?_⟩, by simp [nothing]⟩
    · decide +kernel
    · decide +kernel
    · decide +kernel
  obtain ⟨modified, mode, copy⟩ :=
    everywhere (oneSource ⟨"out"⟩) oneJavaFile (toolsOf carelessRunner) CompileSettings.default
      report progress ⟨"/src"⟩ ["r"] [2] fresh (admissible_oneSource rfl place) leavesEmpty_out rfl
      sparesCopies_carelessRunner ran due
  have old : rewrittenSource.tree.find? (["out"] ++ ["r"]) = some (.file [1] ⟨3⟩ 420) := by
    decide +kernel
  rw [isTarget, isAfter, old] at copy
  cases copy

/-- Copies are not current for every spelling of the target, nor for every behaviour of commands. -/
theorem copies_are_not_always_current : ¬ CurrentForAnySpelling ∧ ¬ CurrentForAnyCommands :=
  ⟨not_currentForAnySpelling, not_currentForAnyCommands⟩

end ClojureBuild
