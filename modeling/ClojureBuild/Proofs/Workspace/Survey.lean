import Mathlib.Logic.ExistsUnique
import ClojureBuild.Proofs.Workspace.LinkedWalk

/-!
# Surveys

A walk through a tree with any links ends.  When it succeeds it has found exactly the files that
names lead to, past the skipped path and past links back, in the strict order of paths, and it has
warned once of each link back.  It fails exactly when it comes to something that leads nowhere.  Only
from the path that stands for the standard input nothing is walked.
-/

namespace ClojureBuild

namespace Visit

/-- The file that is visited. -/
def file? : Visit → Option Path
  | .file path => some path
  | _ => none

/-- The notice of a link that is not followed. -/
def notice? : Visit → Option Notice
  | .loop child ancestor => some (.linkLoop child ancestor)
  | _ => none

/-- The failure that a visit ends in. -/
def failure? : Visit → Option FileFailure
  | .failed path failure => some (.walking path failure)
  | _ => none

theorem file?_eq_some_iff {visit : Visit} {path : Path} :
    visit.file? = some path ↔ visit = .file path := by
  cases visit <;> simp [file?]

theorem notice?_eq_some_iff {visit : Visit} {notice : Notice} :
    visit.notice? = some notice ↔
      ∃ child ancestor, visit = .loop child ancestor ∧ notice = .linkLoop child ancestor := by
  cases visit <;> simp [notice?, eq_comm]

theorem failure?_eq_some_iff {visit : Visit} {failure : FileFailure} :
    visit.failure? = some failure ↔
      ∃ path cause, visit = .failed path cause ∧ failure = .walking path cause := by
  cases visit <;> simp [failure?, eq_comm]

end Visit

namespace Workspace

variable {workspace : Workspace} {skip : Option Path} {root : Path} {names : List String}

/-! ## What is collected -/

/-- A walk gives all files or its first failure. -/
theorem collect_fst (visits : List Visit) :
    (collect visits).1 =
      match visits.findSome? Visit.failure? with
      | some failure => .error failure
      | none => .ok (visits.filterMap Visit.file?) := by
  induction visits with
  | nil =>
      rfl
  | cons visit visits inductionHypothesis =>
      cases visit with
      | file path =>
          change (collect visits).1.map (path :: ·) = _
          rw [inductionHypothesis, List.findSome?_cons, List.filterMap_cons]
          dsimp only [Visit.failure?, Visit.file?]
          cases visits.findSome? Visit.failure? <;> rfl
      | loop child ancestor =>
          change (collect visits).1 = _
          rw [inductionHypothesis, List.findSome?_cons, List.filterMap_cons]
          rfl
      | failed path failure =>
          rfl

theorem collect_snd {visits : List Visit} (unfailing : visits.findSome? Visit.failure? = none) :
    (collect visits).2 = visits.filterMap Visit.notice? := by
  induction visits with
  | nil =>
      rfl
  | cons visit visits inductionHypothesis =>
      rw [List.findSome?_cons] at unfailing
      cases visit with
      | file path =>
          change (collect visits).2 = _
          rw [inductionHypothesis unfailing, List.filterMap_cons]
          rfl
      | loop child ancestor =>
          change .linkLoop child ancestor :: (collect visits).2 = _
          rw [inductionHypothesis unfailing, List.filterMap_cons]
          rfl
      | failed path failure =>
          cases unfailing

theorem collect_eq_ok_iff {visits : List Visit} {files : List Path} :
    (collect visits).1 = .ok files ↔
      visits.findSome? Visit.failure? = none ∧ visits.filterMap Visit.file? = files := by
  rw [collect_fst]
  cases visits.findSome? Visit.failure? <;> simp

theorem collect_eq_error_iff {visits : List Visit} {failure : FileFailure} :
    (collect visits).1 = .error failure ↔ visits.findSome? Visit.failure? = some failure := by
  rw [collect_fst]
  cases visits.findSome? Visit.failure? <;> simp

/-! ## What is to be found -/

/-- Names lead to a file below a root, neither through the skipped path nor through a link back. -/
structure Finds (workspace : Workspace) (skip : Option Path) (root : Path)
    (names : List String) : Prop where
  nonempty : names ≠ []
  plain : ∀ name ∈ names, PlainName name
  isFile : workspace.isFile (root.below names) = true
  goesOn : ∀ initial, initial ≠ [] → initial <+: names →
    skip.any (root.below initial).same = false ∧ ¬ workspace.LeadsBack root initial

theorem Finds.meets (written : root.text ≠ "") (finds : workspace.Finds skip root names) :
    workspace.Meets skip root names := by
  obtain ⟨place, content, modified, mode, found⟩ := (workspace.isFile_iff _).1 finds.isFile
  apply meets_of_status written finds.plain found
  intro initial nonempty isInitial differs
  exact finds.goesOn initial nonempty isInitial

theorem Finds.isDirectory (written : root.text ≠ "") (finds : workspace.Finds skip root names) :
    workspace.isDirectory root = true := by
  obtain ⟨location, enters⟩ :=
    (finds.meets written).enters_initial List.nil_prefix finds.nonempty.symm
  exact isDirectory_iff_leadsToDirectory.2 ⟨location, enters.leads⟩

theorem finds_iff (wellFormed : workspace.tree.WellFormed)
    (directory : workspace.isDirectory root = true) :
    workspace.Finds skip root names ↔
      workspace.Meets skip root names ∧
        workspace.Reports skip root names (.file (root.below names)) := by
  obtain ⟨location, leads⟩ := isDirectory_iff_leadsToDirectory.1 directory
  constructor
  · intro finds
    have written := FileTree.written_of_resolve_found (leadsToDirectory_iff.1 leads).1
    have kept := (finds.goesOn names finds.nonempty List.prefix_rfl).1
    exact ⟨finds.meets written.1, Reports.file finds.isFile (Or.inr kept)⟩
  · intro reported
    obtain ⟨met, reports⟩ := reported
    cases reports with
    | file holds kept =>
        have nonempty : names ≠ [] := by
          intro empty
          rw [empty] at holds
          exact not_leadsToDirectory_of_isFile holds leads
        refine ⟨nonempty, met.plainName wellFormed, holds, ?_⟩
        intro initial initialNonempty isInitial
        obtain ⟨rest, split⟩ := isInitial
        cases rest with
        | nil =>
            rw [List.append_nil] at split
            rw [split]
            refine ⟨kept.resolve_left nonempty, ?_⟩
            intro back
            obtain ⟨-, place, leadsThere, -⟩ := back
            exact not_leadsToDirectory_of_isFile holds leadsThere
        | cons name rest =>
            rw [← split] at met
            obtain ⟨place, enters, -⟩ := met.enters
            exact ⟨enters.kept.resolve_left initialNonempty, enters.onward⟩

/-- A notice warns of a link back and of the innermost directory on the way that it leads back to. -/
def Warns (workspace : Workspace) (root : Path) (names : List String) (notice : Notice) : Prop :=
  ∃ location front, workspace.LeadsToDirectory (root.below names) location ∧
    workspace.Innermost root names front location ∧
      notice = .linkLoop (root.below names) (root.below front)

theorem Warns.unique {notice other : Notice} (warns : workspace.Warns root names notice)
    (otherWarns : workspace.Warns root names other) : notice = other := by
  obtain ⟨location, front, leads, innermost, isNotice⟩ := warns
  obtain ⟨place, otherFront, otherLeads, otherInnermost, isOther⟩ := otherWarns
  rw [otherLeads.unique leads] at otherInnermost
  rw [isNotice, isOther, innermost.unique otherInnermost]

/-- What a walk from a root amounts to. -/
structure Surveys (workspace : Workspace) (skip : Option Path) (root : Path)
    (result : Except FileFailure (List Path) × List Notice) : Prop where
  ascending : ∀ files, result.1 = .ok files → files.Pairwise Path.Before
  complete : ∀ files, result.1 = .ok files → ∀ path,
    path ∈ files ↔ ∃ names, workspace.Finds skip root names ∧ path = root.below names
  warned : ∀ files, result.1 = .ok files → ∀ names, workspace.Meets skip root names →
    workspace.LeadsBack root names → ∃! notice, notice ∈ result.2 ∧ workspace.Warns root names notice
  once : ∀ files, result.1 = .ok files → result.2.Nodup
  onlyWarned : ∀ files, result.1 = .ok files → ∀ notice ∈ result.2, ∃ names,
    workspace.Meets skip root names ∧ workspace.LeadsBack root names ∧
      workspace.Warns root names notice
  fails : (∃ failure, result.1 = .error failure) ↔
    ∃ names, workspace.Meets skip root names ∧ workspace.isPresent (root.below names) = false
  first : ∀ failure, result.1 = .error failure → ∃ names cause,
    workspace.Meets skip root names ∧ workspace.status (root.below names) = .error cause ∧
      failure = .walking (root.below names) cause ∧
        ∀ other, workspace.Meets skip root other →
          workspace.isPresent (root.below other) = false →
            other = names ∨ (root.below names).Before (root.below other)

/-! ## What a walk finds -/

variable {visits : List Visit}

/-- Of every link back that a walk comes to there is something to warn. -/
theorem exists_warns_of_leadsBack (met : workspace.Meets skip root names)
    (back : workspace.LeadsBack root names) :
    ∃ notice, workspace.Warns root names notice := by
  obtain ⟨chain, chainTo⟩ := met.exists_chainTo
  obtain ⟨location, leads, -⟩ := back.2
  obtain ⟨front, innermost, -⟩ := chainTo.exists_ancestor leads back
  exact ⟨_, location, front, leads, innermost, rfl⟩

theorem reports_failed_iff {path : Path} {cause : SystemFailure} :
    workspace.Reports skip root names (.failed path cause) ↔
      path = root.below names ∧ workspace.status (root.below names) = .error cause := by
  constructor
  · intro reports
    cases reports with
    | failed fails =>
        exact ⟨rfl, fails⟩
  · intro fails
    rw [fails.1]
    exact Reports.failed fails.2

section Reported

variable (wellFormed : workspace.tree.WellFormed) (directory : workspace.isDirectory root = true)
variable (ascending : visits.Pairwise fun left right => left.path.Before right.path)
variable (reported : ∀ visit, visit ∈ visits ↔
  ∃ names, workspace.Meets skip root names ∧ workspace.Reports skip root names visit)

include wellFormed directory reported in
theorem mem_files_iff {path : Path} :
    path ∈ visits.filterMap Visit.file? ↔
      ∃ names, workspace.Finds skip root names ∧ path = root.below names := by
  simp only [List.mem_filterMap, Visit.file?_eq_some_iff, exists_eq_right, reported]
  constructor
  · intro found
    obtain ⟨names, met, reports⟩ := found
    have same : path = root.below names := reports.path_eq
    rw [same] at reports
    exact ⟨names, (finds_iff wellFormed directory).2 ⟨met, reports⟩, same⟩
  · intro found
    obtain ⟨names, finds, same⟩ := found
    rw [same]
    exact ⟨names, (finds_iff wellFormed directory).1 finds⟩

include reported in
theorem mem_notices_iff {notice : Notice} :
    notice ∈ visits.filterMap Visit.notice? ↔
      ∃ names, workspace.Meets skip root names ∧ workspace.LeadsBack root names ∧
        workspace.Warns root names notice := by
  simp only [List.mem_filterMap, Visit.notice?_eq_some_iff, reported]
  constructor
  · intro found
    obtain ⟨visit, ⟨names, met, reports⟩, child, ancestor, isLoop, isNotice⟩ := found
    rw [isLoop] at reports
    cases reports with
    | @loop location front isLink leads innermost =>
        exact ⟨names, met, ⟨isLink, location, leads, front, innermost.toLiesAbove⟩, location, front,
          leads, innermost, isNotice⟩
  · intro found
    obtain ⟨names, met, back, location, front, leads, innermost, isNotice⟩ := found
    exact ⟨_, ⟨names, met, Reports.loop back.1 leads innermost⟩, _, _, rfl, isNotice⟩

include reported in
theorem exists_failure_iff :
    (∃ failure, visits.findSome? Visit.failure? = some failure) ↔
      ∃ names, workspace.Meets skip root names ∧
        workspace.isPresent (root.below names) = false := by
  rw [← Option.isSome_iff_exists, List.findSome?_isSome_iff]
  simp only [Option.isSome_iff_exists, Visit.failure?_eq_some_iff, isPresent_eq_false_iff]
  constructor
  · intro failed
    obtain ⟨visit, member, failure, path, cause, isFailed, -⟩ := failed
    obtain ⟨names, met, reports⟩ := (reported visit).1 member
    rw [isFailed, reports_failed_iff] at reports
    exact ⟨names, met, cause, reports.2⟩
  · intro failed
    obtain ⟨names, met, cause, fails⟩ := failed
    exact ⟨_, (reported _).2 ⟨names, met, Reports.failed fails⟩, _, _, cause, rfl, rfl⟩

include wellFormed ascending reported in
theorem exists_first_of_failure {failure : FileFailure}
    (failed : visits.findSome? Visit.failure? = some failure) :
    ∃ names cause, workspace.Meets skip root names ∧
      workspace.status (root.below names) = .error cause ∧
        failure = .walking (root.below names) cause ∧
          ∀ other, workspace.Meets skip root other →
            workspace.isPresent (root.below other) = false →
              other = names ∨ (root.below names).Before (root.below other) := by
  obtain ⟨front, visit, rest, split, isFirst, unfailing⟩ := List.findSome?_eq_some_iff.1 failed
  obtain ⟨path, cause, isFailed, isFailure⟩ := Visit.failure?_eq_some_iff.1 isFirst
  have member : visit ∈ visits := by
    simp [split]
  obtain ⟨names, met, reports⟩ := (reported visit).1 member
  rw [isFailed, reports_failed_iff] at reports
  refine ⟨names, cause, met, reports.2, by rw [isFailure, reports.1], ?_⟩
  intro other otherMet absent
  obtain ⟨otherCause, otherFails⟩ := isPresent_eq_false_iff.1 absent
  have otherMember := (reported _).2 ⟨other, otherMet, Reports.failed otherFails⟩
  rw [split, List.mem_append, List.mem_cons] at otherMember
  rw [split] at ascending
  cases otherMember with
  | inl inFront =>
      cases unfailing _ inFront
  | inr onward =>
      cases onward with
      | inl same =>
          rw [isFailed, reports.1] at same
          have samePath := (Visit.failed.inj same).1
          have plainNames := met.plainName wellFormed
          have otherPlain := otherMet.plainName wellFormed
          left
          apply (Path.below_same_iff root otherPlain plainNames).1
          rw [samePath, Path.same, beq_self_eq_true]
      | inr inRest =>
          right
          have later := (List.pairwise_cons.1 (List.pairwise_append.1 ascending).2.1).1 _ inRest
          rw [isFailed] at later
          rw [← reports.1]
          exact later

include wellFormed directory ascending reported in
theorem surveys_collect : workspace.Surveys skip root (collect visits) where
  ascending := by
    intro files isOk
    obtain ⟨-, isFiles⟩ := collect_eq_ok_iff.1 isOk
    rw [← isFiles]
    apply ascending.filterMap
    intro left right before leftPath isLeft rightPath isRight
    rw [Visit.file?_eq_some_iff.1 isLeft, Visit.file?_eq_some_iff.1 isRight] at before
    exact before
  complete := by
    intro files isOk path
    obtain ⟨-, isFiles⟩ := collect_eq_ok_iff.1 isOk
    rw [← isFiles]
    exact mem_files_iff wellFormed directory reported
  warned := by
    intro files isOk names met back
    obtain ⟨unfailing, -⟩ := collect_eq_ok_iff.1 isOk
    obtain ⟨notice, warns⟩ := exists_warns_of_leadsBack met back
    rw [collect_snd unfailing]
    refine ⟨notice, ⟨(mem_notices_iff reported).2 ⟨names, met, back, warns⟩, warns⟩, ?_⟩
    intro other otherWarns
    exact otherWarns.2.unique warns
  once := by
    intro files isOk
    obtain ⟨unfailing, -⟩ := collect_eq_ok_iff.1 isOk
    rw [collect_snd unfailing]
    apply ascending.filterMap
    intro left right before notice isLeft other isRight same
    obtain ⟨child, ancestor, isLoop, isNotice⟩ := Visit.notice?_eq_some_iff.1 isLeft
    obtain ⟨otherChild, otherAncestor, otherLoop, isOther⟩ := Visit.notice?_eq_some_iff.1 isRight
    rw [isNotice, isOther] at same
    rw [isLoop, otherLoop, Visit.path, Visit.path, (Notice.linkLoop.inj same).1] at before
    exact before.not_before before
  onlyWarned := by
    intro files isOk notice member
    obtain ⟨unfailing, -⟩ := collect_eq_ok_iff.1 isOk
    rw [collect_snd unfailing] at member
    exact (mem_notices_iff reported).1 member
  fails := by
    simp only [collect_eq_error_iff]
    exact exists_failure_iff reported
  first := by
    intro failure isError
    exact exists_first_of_failure wellFormed ascending reported (collect_eq_error_iff.1 isError)

end Reported

theorem mem_walk_iff {files : List Path} {path : Path} (wellFormed : workspace.tree.WellFormed)
    (directory : workspace.isDirectory root = true) (named : root.same standardInput = false)
    (done : (workspace.walk root skip).1 = .ok files) :
    path ∈ files ↔ ∃ names, workspace.Finds skip root names ∧ path = root.below names := by
  rw [walk, named, if_neg Bool.false_ne_true] at done
  obtain ⟨-, isFiles⟩ := collect_eq_ok_iff.1 done
  rw [← isFiles]
  exact mem_files_iff wellFormed directory fun visit =>
    mem_visits_root_iff wellFormed (Nat.le_refl workspace.walkBound)

theorem ascending_of_walk {files : List Path} (wellFormed : workspace.tree.WellFormed)
    (directory : workspace.isDirectory root = true)
    (done : (workspace.walk root skip).1 = .ok files) : files.Pairwise Path.Before := by
  rw [walk] at done
  split at done
  · cases done
    exact List.Pairwise.nil
  · have reported (visit : Visit) :
        visit ∈ workspace.visits skip workspace.walkBound [] root ↔
          ∃ names, workspace.Meets skip root names ∧ workspace.Reports skip root names visit :=
      mem_visits_root_iff wellFormed (Nat.le_refl workspace.walkBound)
    have surveys :=
      surveys_collect wellFormed directory (visits_root_ascending wellFormed) reported
    exact surveys.ascending files done

/-- Where nothing is walked, nothing is missed if there is nothing to report. -/
theorem surveys_nothing_iff (wellFormed : workspace.tree.WellFormed)
    (directory : workspace.isDirectory root = true) :
    workspace.Surveys skip root (.ok [], []) ↔
      ∀ names, workspace.Meets skip root names →
        ∀ visit, ¬ workspace.Reports skip root names visit := by
  constructor
  · intro surveys names met visit reports
    cases reports with
    | file holds kept =>
        have finds := (finds_iff wellFormed directory).2 ⟨met, Reports.file holds kept⟩
        have member := (surveys.complete [] rfl _).2 ⟨names, finds, rfl⟩
        cases member
    | @loop location front isLink leads innermost =>
        obtain ⟨notice, warned, -⟩ :=
          surveys.warned [] rfl names met ⟨isLink, location, leads, front, innermost.toLiesAbove⟩
        cases warned.1
    | failed fails =>
        obtain ⟨failure, isError⟩ :=
          surveys.fails.2 ⟨names, met, isPresent_eq_false_iff.2 ⟨_, fails⟩⟩
        cases isError
  · intro quiet
    have nothingReported (visit : Visit) :
        visit ∈ [] ↔
          ∃ names, workspace.Meets skip root names ∧ workspace.Reports skip root names visit := by
      constructor
      · intro member
        cases member
      · intro reported
        obtain ⟨names, met, reports⟩ := reported
        exact absurd reports (quiet names met visit)
    exact surveys_collect wellFormed directory List.Pairwise.nil nothingReported

/-- A walk ends, whatever links a workspace holds.  It is complete, in order and warns of the links
that it does not follow, unless the root is the path of the standard input and there is something to
report below it. -/
theorem walks_end_and_are_complete (skip : Option Path) (wellFormed : workspace.tree.WellFormed)
    (directory : workspace.isDirectory root = true) :
    (∀ fuel, workspace.walkBound ≤ fuel →
        workspace.visits skip fuel [] root =
          workspace.visits skip workspace.walkBound [] root) ∧
      (workspace.Surveys skip root (workspace.walk root skip) ↔
        (root.same standardInput = true → ∀ names, workspace.Meets skip root names →
          ∀ visit, ¬ workspace.Reports skip root names visit)) := by
  refine ⟨fun fuel enough => visits_root_eq wellFormed enough, ?_⟩
  rw [walk]
  by_cases named : root.same standardInput = true
  · rw [if_pos named, surveys_nothing_iff wellFormed directory]
    simp [named]
  · rw [if_neg named]
    have reported (visit : Visit) :
        visit ∈ workspace.visits skip workspace.walkBound [] root ↔
          ∃ names, workspace.Meets skip root names ∧ workspace.Reports skip root names visit :=
      mem_visits_root_iff wellFormed (Nat.le_refl workspace.walkBound)
    have surveys :=
      surveys_collect wellFormed directory (visits_root_ascending wellFormed) reported
    simp [named, surveys]

/-- A directory with a file and a link back to the directory above it. -/
def linkedBack : Workspace where
  tree :=
    ⟨[([], .directory ⟨0⟩), (["d"], .directory ⟨0⟩), (["d", "a"], .directory ⟨0⟩),
      (["d", "a", "f"], .file [] ⟨0⟩ 420), (["d", "a", "l"], .link ⟨"/d"⟩)]⟩
  current := []
  home := ⟨"/home"⟩
  clock := ⟨0⟩

theorem walk_of_linkedBack :
    linkedBack.tree.WellFormed ∧ linkedBack.isDirectory ⟨"d"⟩ = true ∧
      linkedBack.Surveys none ⟨"d"⟩ (.ok [⟨"d/a/f"⟩], [.linkLoop ⟨"d/a/l"⟩ ⟨"d"⟩]) := by
  have wellFormed : linkedBack.tree.WellFormed := by decide +kernel
  have directory : linkedBack.isDirectory ⟨"d"⟩ = true := by decide +kernel
  have walked :
      linkedBack.walk ⟨"d"⟩ none = (.ok [⟨"d/a/f"⟩], [.linkLoop ⟨"d/a/l"⟩ ⟨"d"⟩]) := by
    decide +kernel
  have notInput : ¬ (Path.mk "d").same standardInput = true := by decide +kernel
  have surveys :=
    (walks_end_and_are_complete none wellFormed directory).2.2 fun input => absurd input notInput
  rw [walked] at surveys
  exact ⟨wellFormed, directory, surveys⟩

/-- A file in a directory whose name stands for the standard input. -/
def unwalkedDirectory : Workspace where
  tree :=
    ⟨[([], .directory ⟨0⟩), (["-"], .directory ⟨0⟩), (["-", "x.clj"], .file [] ⟨0⟩ 420)]⟩
  current := []
  home := ⟨"/home"⟩
  clock := ⟨0⟩

theorem file_of_unwalkedDirectory_is_missed :
    ¬ ∀ (workspace : Workspace) (skip : Option Path) (root : Path),
      workspace.tree.WellFormed → workspace.isDirectory root = true →
        workspace.Surveys skip root (workspace.walk root skip) := by
  intro everywhere
  have surveys := everywhere unwalkedDirectory none ⟨"-"⟩ (by decide +kernel) (by decide +kernel)
  have finds : unwalkedDirectory.Finds none ⟨"-"⟩ ["x.clj"] := by
    have fileName : FileName "x.clj" := by decide +kernel
    refine ⟨by simp, by simpa using fileName.toPlainName, by decide +kernel, ?_⟩
    intro initial nonempty isInitial
    obtain ⟨rest, whole, isRest⟩ := (List.prefix_cons_iff.1 isInitial).resolve_left nonempty
    rw [List.prefix_nil.1 isRest] at whole
    have noLink : unwalkedDirectory.isLink (Path.below ⟨"-"⟩ ["x.clj"]) = false := by
      decide +kernel
    refine ⟨rfl, ?_⟩
    intro back
    rw [LeadsBack, whole, noLink] at back
    cases back.1
  have missed := (surveys.complete [] rfl (Path.below ⟨"-"⟩ ["x.clj"])).2 ⟨["x.clj"], finds, rfl⟩
  cases missed

end Workspace

end ClojureBuild
