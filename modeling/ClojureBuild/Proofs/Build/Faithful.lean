import ClojureBuild.Proofs.Build.Delegation
import ClojureBuild.Proofs.Build.Filling
import ClojureBuild.Proofs.Workspace.Layout

/-!
# Faithful builds

A build that starts from a faithful workspace leaves one, however it ends, and the files below the
roots stay what they are.  A pass over a root that succeeds leaves a copy with the same bytes of every
file that is to be copied.
-/

namespace ClojureBuild

namespace Workspace

variable {start before after workspace : Workspace} {layout : Layout} {source : Location}
variable {names : List String} {done : Location → List String → Prop}

/-! ## What a build keeps -/

/-- A build that began in a workspace has got to another one, which is faithful, holds the same files
below the roots and has certain copies. -/
structure Underway (layout : Layout) (start : Workspace) (done : Location → List String → Prop)
    (workspace : Workspace) : Prop where
  faithful : workspace.Faithful layout
  current : workspace.current = start.current
  sameFiles : layout.SameFiles start.tree workspace.tree
  copied : ∀ source names, done source names →
    layout.Mirrors source names ∧ workspace.HasCopy layout source names

/-- A command stamps what it writes and leaves the files below the roots and their copies alone. -/
structure Considerate (layout : Layout) (before after : Workspace) : Prop
    extends Stamped before after where
  sameFiles : layout.SameFiles before.tree after.tree
  copies : ∀ source names, layout.Mirrors source names → before.tree.HoldsFile (source ++ names) →
    LeftAlone before after (layout.target ++ names)

theorem HasCopy.of_considerate
    (copy : before.HasCopy layout source names) (considerate : Considerate layout before after)
    (mirrors : layout.Mirrors source names) : after.HasCopy layout source names := by
  obtain ⟨content, modified, mode, stamp, copyMode, found, isCopy⟩ := copy
  have kept := considerate.copies source names mirrors ⟨content, modified, mode, found⟩
  have foundAfter := (considerate.sameFiles source mirrors.root names _ _ _).2 found
  exact ⟨content, modified, mode, stamp, copyMode, foundAfter, kept.entry.trans isCopy⟩

theorem HasCopy.of_onlyMade
    {places : Location → Prop} (copy : before.HasCopy layout source names)
    (only : OnlyMade places before after) : after.HasCopy layout source names := by
  obtain ⟨content, modified, mode, stamp, copyMode, found, isCopy⟩ := copy
  exact ⟨content, modified, mode, stamp, copyMode, only.kept found, only.kept isCopy⟩

namespace Underway

theorem begin (faithful : start.Faithful layout) :
    Underway layout start (fun _ _ => False) start where
  faithful := faithful
  current := rfl
  sameFiles := Layout.SameFiles.refl layout start.tree
  copied := fun _ _ => False.elim

/-- Which copies there are may be stated anew. -/
theorem restate
    {others : Location → List String → Prop} (underway : Underway layout start done workspace)
    (copied : ∀ source names, others source names →
      layout.Mirrors source names ∧ workspace.HasCopy layout source names) :
    Underway layout start others workspace where
  faithful := underway.faithful
  current := underway.current
  sameFiles := underway.sameFiles
  copied := copied

theorem of_considerate
    (underway : Underway layout start done before)
    (considerate : Considerate layout before after) : Underway layout start done after where
  faithful := by
    refine underway.faithful.of_stamped considerate.toStamped ?_
    intro source names mirrors file
    exact considerate.copies source names mirrors
      ((considerate.sameFiles.holdsFile_iff mirrors.root).1 file)
  current := considerate.current.trans underway.current
  sameFiles := underway.sameFiles.trans considerate.sameFiles
  copied := by
    intro source names isDone
    obtain ⟨mirrors, copy⟩ := underway.copied source names isDone
    exact ⟨mirrors, copy.of_considerate considerate mirrors⟩

theorem of_onlyMade
    {places : Location → Prop} (underway : Underway layout start done before)
    (only : OnlyMade places before after)
    (clear : ∀ source names, layout.Mirrors source names → after.tree.HoldsFile (source ++ names) →
      ∀ new, places new → new ≠ layout.target ++ names ∧ new.dropLast ≠ layout.target ++ names) :
    Underway layout start done after where
  faithful := by
    refine underway.faithful.of_stamped only.toStamped ?_
    intro source names mirrors file
    have apart := clear source names mirrors file
    exact only.leftAlone (fun inPlaces => (apart _ inPlaces).1 rfl)
      fun new inPlaces => (apart new inPlaces).2
  current := only.current.trans underway.current
  sameFiles := underway.sameFiles.trans (only.sameFiles layout)
  copied := by
    intro source names isDone
    obtain ⟨mirrors, copy⟩ := underway.copied source names isDone
    exact ⟨mirrors, copy.of_onlyMade only⟩

/-- The files below the roots are apart as long as a build goes on. -/
theorem eq_of_files
    (underway : Underway layout start done workspace) (startPlain : start.tree.Plain)
    (apart : layout.Apart start.tree) {other : Location} {inner : List String}
    (root : layout.Root source) (otherRoot : layout.Root other) (nonempty : names ≠ [])
    (file : workspace.tree.HoldsFile (source ++ names))
    (longer : workspace.tree.HoldsFile (other ++ (names ++ inner))) : source = other :=
  apart.eq_of_files startPlain.toWellFormed root otherRoot nonempty
    ((underway.sameFiles.holdsFile_iff root).1 file)
    ((underway.sameFiles.holdsFile_iff otherRoot).1 longer)

/-- No file lies below one that is to be copied, be it below another root. -/
theorem not_longer
    (underway : Underway layout start done workspace) (startPlain : start.tree.Plain)
    (apart : layout.Apart start.tree) (root : layout.Root source)
    (file : workspace.tree.HoldsFile (source ++ names)) {other : Location} {inner : List String}
    (mirrors : layout.Mirrors other inner)
    (otherFile : workspace.tree.HoldsFile (other ++ inner)) :
    ¬ ∃ rest, rest ≠ [] ∧ names = inner ++ rest := by
  rintro ⟨rest, restNonempty, rfl⟩
  have sameRoot :=
    underway.eq_of_files startPlain apart mirrors.root root mirrors.nonempty otherFile file
  subst sameRoot
  obtain ⟨content, modified, mode, found⟩ := file
  rw [← List.append_assoc,
    underway.faithful.plain.find?_append_of_holdsFile restNonempty otherFile] at found
  cases found

/-- A directory made for a copy neither takes the place of another copy nor is made in it. -/
theorem not_needed
    (underway : Underway layout start done workspace) (startPlain : start.tree.Plain)
    (apart : layout.Apart start.tree) (root : layout.Root source)
    (file : workspace.tree.HoldsFile (source ++ names)) {other : Location} {inner : List String}
    (mirrors : layout.Mirrors other inner)
    (otherFile : workspace.tree.HoldsFile (other ++ inner)) :
    ∀ new, Needed layout.target names new →
      new ≠ layout.target ++ inner ∧ new.dropLast ≠ layout.target ++ inner := by
  have notLonger := underway.not_longer startPlain apart root file mirrors otherFile
  intro new needed
  constructor
  · rintro rfl
    exact notLonger (longer_of_needed needed)
  · exact fun holds => notLonger (longer_of_holds_needed needed holds)

/-- The directory of a copy is not in the place of another copy. -/
theorem not_holds
    (underway : Underway layout start done workspace) (startPlain : start.tree.Plain)
    (apart : layout.Apart start.tree) (root : layout.Root source) (nonempty : names ≠ [])
    (file : workspace.tree.HoldsFile (source ++ names)) (other : Location) (inner : List String)
    (mirrors : layout.Mirrors other inner)
    (otherFile : workspace.tree.HoldsFile (other ++ inner)) :
    layout.target ++ inner ≠ (layout.target ++ names).dropLast := fun same =>
  underway.not_longer startPlain apart root file mirrors otherFile
    (longer_of_holds nonempty same.symm)

/-- That the directory of a copy changes keeps what a build keeps. -/
theorem changing
    (underway : Underway layout start done before) (startPlain : start.tree.Plain)
    (apart : layout.Apart start.tree) (root : layout.Root source) (nonempty : names ≠ [])
    (file : before.tree.HoldsFile (source ++ names)) :
    Underway layout start done (before.changing (layout.target ++ names).dropLast).tick where
  faithful := underway.faithful.changing (underway.not_holds startPlain apart root nonempty file)
  current := underway.current
  sameFiles := underway.sameFiles
  copied := underway.copied

/-- Writing the copy of a file keeps what a build keeps. -/
theorem written
    {content : List UInt8} {modified : Instant} {mode copyMode : Nat}
    (underway : Underway layout start done before) (startPlain : start.tree.Plain)
    (apart : layout.Apart start.tree) (root : layout.Root source) (nonempty : names ≠ [])
    (found : before.tree.find? (source ++ names) = some (.file content modified mode))
    (plain : (before.written (layout.target ++ names) content copyMode).tree.Plain) :
    Underway layout start done (before.written (layout.target ++ names) content copyMode) := by
  have file : before.tree.HoldsFile (source ++ names) := ⟨content, modified, mode, found⟩
  have only :
      ∀ other, layout.Root other → before.tree.HoldsFile (other ++ names) → source = other := by
    intro other otherRoot otherFile
    rw [← List.append_nil names] at otherFile
    exact underway.eq_of_files startPlain apart root otherRoot nonempty file otherFile
  have clear := underway.not_holds startPlain apart root nonempty file
  exact
    { faithful := underway.faithful.written root only clear found plain
      current := underway.current
      sameFiles := underway.sameFiles.trans (sameFiles_written layout before names content copyMode)
      copied := fun other inner isDone =>
        have ⟨mirrors, copy⟩ := underway.copied other inner isDone
        ⟨mirrors, copy.written mirrors.root root only found⟩ }

end Underway

end Workspace

namespace Build

open Workspace

variable {start before : Workspace} {layout : Layout} {source : Location} {names : List String}
variable {progress later : Progress} {target root destination : Path}
variable {done : Location → List String → Prop} {excluded : List Namespace}
variable {report : ResourceReport} {hindrances : Hindrances}

/-! ## Refreshing -/

section Refreshing

variable {content : List UInt8} {modified : Instant} {mode : Nat}
variable {result : Except BuildError ResourceReport × Progress}

/-- A copy that has been refreshed has the bytes of its source. -/
theorem Refreshed.hasCopy
    (refreshed :
      Refreshed layout.target names destination (.file content modified mode) progress result)
    (faithful : progress.workspace.Faithful layout) (mirrors : layout.Mirrors source names)
    (found : progress.workspace.tree.find? (source ++ names) =
      some (.file content modified mode))
    (succeeded : result.1 = .ok report) : result.2.workspace.HasCopy layout source names := by
  cases refreshed with
  | upToDate fresh =>
      exact faithful.faithful mirrors found fresh
  | copied only isFile directory noDirectory stale =>
      cases isFile
      exact hasCopy_written mirrors.root (only.kept found)
  | failed only =>
      cases succeeded
  | undone only =>
      cases succeeded
  | unfinished only isFile directory noDirectory stale =>
      cases succeeded

/-- Refreshing a copy keeps what a build keeps, whether it succeeds or not. -/
theorem Refreshed.underway
    (refreshed :
      Refreshed layout.target names destination (.file content modified mode) progress result)
    (underway : Underway layout start done progress.workspace) (startPlain : start.tree.Plain)
    (apart : layout.Apart start.tree) (root : layout.Root source) (nonempty : names ≠ [])
    (fileNames : ∀ name ∈ names, FileName name)
    (found : progress.workspace.tree.find? (source ++ names) =
      some (.file content modified mode)) :
    Underway layout start done result.2.workspace := by
  have made :
      ∀ {ready}, OnlyMade (Needed layout.target names) progress.workspace ready →
        Underway layout start done ready := fun only =>
    underway.of_onlyMade only fun other inner mirrors file =>
      underway.not_needed startPlain apart root ⟨content, modified, mode, found⟩ mirrors
        (only.holdsFile_iff.1 file)
  cases refreshed with
  | upToDate fresh =>
      exact underway
  | failed only =>
      exact made only
  | undone only =>
      exact (made only).changing startPlain apart root nonempty
        ⟨content, modified, mode, only.kept found⟩
  | copied only isFile directory noDirectory stale =>
      cases isFile
      exact (made only).written startPlain apart root nonempty (only.kept found)
        (filled_written only.plain nonempty fileNames directory noDirectory content mode).plain
  | unfinished only isFile directory noDirectory stale =>
      cases isFile
      exact (made only).written startPlain apart root nonempty (only.kept found)
        (filled_written only.plain nonempty fileNames directory noDirectory content
          temporaryMode).plain

end Refreshing

/-! ## Passes over roots -/

/-- A build that is under way has made its target. -/
structure Passing (layout : Layout) (start : Workspace) (target : Path)
    (done : Location → List String → Prop) (progress : Progress) : Prop where
  underway : Underway layout start done progress.workspace
  leads : progress.workspace.LeadsToDirectory target layout.target

/-- A step of a pass that began in a workspace keeps what a build keeps and gives a copy. -/
theorem Passing.refreshResource
    (passing : Passing layout start target done progress)
    (beforePlain : before.tree.Plain) (startPlain : start.tree.Plain)
    (apart : layout.Apart start.tree) (leads : before.LeadsToDirectory target layout.target)
    (rootLeads : before.LeadsToDirectory root source) (isRoot : layout.Root source)
    (filled : Filled layout.target before progress.workspace)
    (file : before.tree.HoldsFile (source ++ names)) :
    let result := (refreshResource hindrances (target.below names) (root.below names)).after progress
    Passing layout start target done result.2 ∧
      Filled layout.target before result.2.workspace ∧
        (layout.Mirrors source names → ∀ report, result.1 = .ok report →
          result.2.workspace.HasCopy layout source names) := by
  intro result
  obtain ⟨nonempty, fileNames, content, modified, mode, found, refreshed⟩ :=
    refreshed_of_filled beforePlain leads rootLeads file filled
  have underway :=
    refreshed.underway passing.underway startPlain apart isRoot nonempty fileNames found
  have more := refreshed.filled filled.plain nonempty fileNames
  refine ⟨⟨underway, more.leadsToDirectory filled.plain passing.leads⟩, filled.trans more, ?_⟩
  intro mirrors report succeeded
  exact refreshed.hasCopy passing.underway.faithful mirrors found succeeded

theorem keeps_refreshResource
    (beforePlain : before.tree.Plain) (startPlain : start.tree.Plain)
    (apart : layout.Apart start.tree) (leads : before.LeadsToDirectory target layout.target)
    (rootLeads : before.LeadsToDirectory root source) (isRoot : layout.Root source)
    (file : before.tree.HoldsFile (source ++ names)) :
    Keeps
      (fun reached => Passing layout start target done reached ∧
        Filled layout.target before reached.workspace)
      (refreshResource hindrances (target.below names) (root.below names)) := by
  rintro reached ⟨passing, filled⟩
  obtain ⟨passingLater, filledLater, -⟩ :=
    passing.refreshResource beforePlain startPlain apart leads rootLeads isRoot filled file
  exact ⟨passingLater, filledLater⟩

/-- A pass over a root keeps what a build keeps. -/
theorem keeps_copyResources
    (startPlain : start.tree.Plain) (apart : layout.Apart start.tree)
    (rootAbsolute : root.isAbsolute = true)
    (isRoot : layout.Root (placeOf root)) :
    Keeps (Passing layout start target done) (copyResources hindrances root target excluded) := by
  intro progress passing
  have plain := passing.underway.faithful.plain
  by_cases directory : progress.workspace.isDirectory root = true
  · obtain ⟨location, rootLeads⟩ := isDirectory_iff_leadsToDirectory.1 directory
    have isPlace := eq_placeOf_of_leadsToDirectory plain rootAbsolute rootLeads
    subst isPlace
    rw [after_copyResources plain rootLeads (same_standardInput_of_isAbsolute rootAbsolute)]
    have keeps :
        Keeps
          (fun reached => Passing layout start target done reached ∧
            Filled layout.target progress.workspace reached.workspace)
          ((progress.workspace.resourceNames root (placeOf root) target excluded).mapM
            (fun names => refreshResource hindrances (target.below names) (root.below names)) >>=
              fun passes => pure (ResourceReport.ofPasses passes)) := by
      refine Keeps.bind (Keeps.mapM fun names member => ?_) fun held _ => held
      exact keeps_refreshResource plain startPlain apart passing.leads rootLeads isRoot
        ((mem_resourceNames_iff plain.toWellFormed).1 member).1
    exact (keeps progress ⟨passing, Filled.refl plain layout.target⟩).1
  · rw [copyResources, after_bind, after_checkRoot]
    simp only [directory, Bool.false_eq_true, if_false]
    exact passing

/-- A pass over a root does not come upon the target. -/
theorem avoids_of_root
    (place : placeOf target = layout.target) (isRoot : layout.Root (placeOf root))
    (plainNames : ∀ name ∈ names, PlainName name) :
    avoids (some target) root names = true := by
  rw [avoids_some_iff]
  intro initial _ isInitial
  have initialPlain : ∀ name ∈ initial, PlainName name :=
    fun name member => plainNames name (isInitial.subset member)
  by_contra same
  have steps := Path.steps_eq_of_same (by simpa using same)
  have reaches : placeOf root ++ initial = layout.target := by
    rw [← placeOf_below root initialPlain, ← place, placeOf, steps, placeOf]
  exact isRoot.notAbove (reaches ▸ List.prefix_append (placeOf root) initial)

/-- After a pass over a root that succeeds, every file below it that is to be copied has a copy. -/
theorem hasCopy_of_copyResources
    (startPlain : start.tree.Plain) (apart : layout.Apart start.tree)
    (place : placeOf target = layout.target) (rootAbsolute : root.isAbsolute = true)
    (passing : Passing layout start target done progress)
    (succeeded : (copyResources hindrances root target excluded).after progress = (.ok report, later))
    (mirrors : layout.Mirrors (placeOf root) names)
    (file : start.tree.HoldsFile (placeOf root ++ names))
    (included : isResource excluded names = true) :
    later.workspace.HasCopy layout (placeOf root) names := by
  have plain := passing.underway.faithful.plain
  have directory : progress.workspace.isDirectory root = true := by
    by_contra missing
    rw [copyResources, after_bind, after_checkRoot] at succeeded
    simp [missing] at succeeded
  obtain ⟨location, rootLeads⟩ := isDirectory_iff_leadsToDirectory.1 directory
  have isPlace := eq_placeOf_of_leadsToDirectory plain rootAbsolute rootLeads
  subst isPlace
  rw [after_copyResources plain rootLeads (same_standardInput_of_isAbsolute rootAbsolute),
    after_bind_eq_ok_iff] at succeeded
  obtain ⟨passes, final, ran, last⟩ := succeeded
  cases last
  have fileNow := (passing.underway.sameFiles.holdsFile_iff mirrors.root).2 file
  have plainNames := plain.plainName_of_holdsFile fileNow
  have member :=
    (mem_resourceNames_iff plain.toWellFormed).2
      ⟨fileNow, avoids_of_root place mirrors.root plainNames, included⟩
  -- Before the file comes up nothing needs to be known of copies, afterwards only of its own.
  have keeps (some : Location → List String → Prop) :
      ∀ other ∈ progress.workspace.resourceNames root (placeOf root) target excluded,
        Keeps
          (fun reached => Passing layout start target some reached ∧
            Filled layout.target progress.workspace reached.workspace)
          (refreshResource hindrances (target.below other) (root.below other)) :=
    fun other inList =>
      keeps_refreshResource plain startPlain apart passing.leads rootLeads mirrors.root
        ((mem_resourceNames_iff plain.toWellFormed).1 inList).1
  have copies :=
    achieved_of_after_mapM member (keeps done)
      (fun {report reached next} held one => by
        obtain ⟨passingNext, filledNext, copy⟩ :=
          held.1.refreshResource plain startPlain apart passing.leads rootLeads
            mirrors.root held.2 fileNow
        rw [one] at passingNext filledNext copy
        refine ⟨⟨passingNext.underway.restate ?_, passingNext.leads⟩, filledNext⟩
        rintro other inner ⟨rfl, rfl⟩
        exact ⟨mirrors, copy mirrors report rfl⟩)
      (keeps fun other inner => other = placeOf root ∧ inner = names)
      ⟨passing, Filled.refl plain layout.target⟩ ran
  exact (copies.1.underway.copied _ _ ⟨rfl, rfl⟩).2

end Build

end ClojureBuild
