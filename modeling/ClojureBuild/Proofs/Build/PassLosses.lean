import ClojureBuild.Proofs.Build.PassReport

/-!
# Resources that a pass loses

Whether a copy is current is told by its time alone.  So a directory that stands where a resource belongs
passes for a copy of it when it is not older, and the resource is reported as unchanged although there is
no copy.  An older directory stops the pass.
-/

namespace ClojureBuild.Build

open Workspace

variable {before ready after : Workspace} {rootPath target : Path} {root place : Location}
variable {names : List String} {listed : List (List String)} {kept : List String → Bool}
variable {excluded : List Namespace} {report : ResourceReport} {progress later : Progress}
variable {hindrances : Hindrances}

/-- A target and a root neither of which equals or contains the other. -/
structure DisjointTarget (workspace : Workspace) (root target : Path) : Prop where
  notAbove : ¬ workspace.spelled target <+: workspace.spelled root
  notBelow : ¬ workspace.spelled root <+: workspace.spelled target

theorem DisjointTarget.clear (disjoint : DisjointTarget before rootPath target) :
    ClearTarget before rootPath target where
  notAbove := disjoint.notAbove
  below := fun below => absurd below disjoint.notBelow

/-- A pass takes up all resources of a root that it walks over. -/
theorem DisjointTarget.mem_passNames (disjoint : DisjointTarget before rootPath target)
    (plain : before.tree.Plain) (walked : rootPath.same standardInput = false)
    (file : before.tree.HoldsFile (before.spelled rootPath ++ names))
    (resource : isResource excluded names = true) :
    names ∈ passNames before rootPath target excluded := by
  rw [passNames, walkedNames, walked, if_neg Bool.false_ne_true, List.mem_filter,
    mem_fileNames_iff plain.toWellFormed]
  refine ⟨file, ?_⟩
  have outside : (before.spelled target).isPrefixOf (before.spelled rootPath ++ names) = false := by
    rw [← Bool.not_eq_true, List.isPrefixOf_iff_prefix]
    intro above
    cases List.prefix_or_prefix_of_prefix above (List.prefix_append _ names) with
    | inl aboveRoot =>
        exact disjoint.notAbove aboveRoot
    | inr belowRoot =>
        exact disjoint.notBelow belowRoot
  simp [outside, resource]

namespace Judges

/-- What is kept as a copy is a file unless a directory stood there or has been made there. -/
theorem holdsFile_iff
    (judges : Judges target root place listed kept before ready after)
    (takesUp : TakesUp rootPath root place listed before) (member : names ∈ listed) :
    after.tree.HoldsFile (place ++ names) ↔
      ¬ before.tree.HoldsDirectory (place ++ names) ∧
        ¬ OnTheWayFrom (FileTree.startOf before.current target) target (place ++ names) := by
  have opens := judges.opens (List.ne_nil_of_mem member)
  constructor
  · intro file
    constructor
    · intro directory
      exact file.not_holdsDirectory
        (judges.copies.grows.directories (judges.made.grows.directories directory))
    · rintro ⟨initial, ⟨rest, split⟩, isSpelled⟩
      have followed := opens.followed
      rw [judges.made.current, ← split] at followed
      obtain ⟨reached, toReached, directory⟩ :=
        FileTree.follow_front_holdsDirectory judges.made.plain opens.directory followed
      rw [FileTree.eq_spell_of_follow judges.made.plain toReached, isSpelled] at directory
      exact file.not_holdsDirectory (judges.copies.grows.directories directory)
  · rintro ⟨noDirectory, notOnTheWay⟩
    cases isKept : kept names with
    | false =>
        have inCopied : names ∈ copiedAmong kept listed :=
          List.mem_filter.2 ⟨member, by simp [isKept]⟩
        obtain ⟨content, -, mode, changed, -, copy, -⟩ := judges.copies.written names inCopied
        exact ⟨content, changed, mode, copy⟩
    | true =>
        obtain ⟨-, current⟩ := (judges.kept_iff names member).1 isKept
        obtain ⟨_, -, copy, held, -⟩ := isCurrentCopy_iff.1 current
        have noneReady : ¬ ready.tree.HoldsDirectory (place ++ names) := by
          rintro ⟨modified, directory⟩
          cases earlier : before.tree.find? (place ++ names) with
          | some entry =>
              rw [judges.made.kept earlier] at directory
              cases directory
              exact noDirectory ⟨modified, earlier⟩
          | none =>
              obtain ⟨⟨first, -, isFirst, onTheWay | needed⟩, -⟩ :=
                judges.made.made earlier directory
              · exact notOnTheWay onTheWay
              · exact (takesUp.not_needed member (List.mem_of_head? isFirst) _ needed).1 rfl
        have file := (judges.made.plain.holds_of_find? held).resolve_left noneReady
        exact judges.copies.grows.files file

end Judges

/-- After a pass that succeeds, over any root of a tree without links, for any target disjoint from it,
a resource has a copy exactly when no directory stood at its destination before the pass and none is
made there on the way to the target.  A root that a walk takes for the standard input is left alone. -/
theorem resource_has_copy_iff_no_directory
    (plain : progress.workspace.tree.Plain)
    (disjoint : DisjointTarget progress.workspace rootPath target)
    (passed : (copyResources hindrances rootPath target excluded).after progress = (.ok report, later)) :
    ∀ names,
      progress.workspace.tree.HoldsFile (progress.workspace.spelled rootPath ++ names) →
        isResource excluded names = true →
          (later.workspace.isFile (target.below names) = true ↔
            if rootPath.same standardInput = true then
              progress.workspace.isFile (target.below names) = true
            else
              ¬ progress.workspace.tree.HoldsDirectory
                  (progress.workspace.spelled target ++ names) ∧
                ¬ OnTheWayFrom (FileTree.startOf progress.workspace.current target) target
                  (progress.workspace.spelled target ++ names)) := by
  intro names file resource
  obtain ⟨root, kept, ready, takesUp, isReport, judges⟩ :=
    exists_judges_of_copyResources plain disjoint.clear passed
  cases walked : rootPath.same standardInput with
  | true =>
      have nothing : passNames progress.workspace rootPath target excluded = [] := by
        rw [passNames, walkedNames, walked]
        rfl
      rw [nothing] at isReport
      obtain ⟨files, notices, -, -, mirrors⟩ := exists_walk_of_copyResources passed
      rw [if_pos rfl, mirrors.eq_of_copied_eq_nil (by rw [isReport]; rfl)]
  | false =>
      have member := disjoint.mem_passNames plain walked file resource
      rw [if_neg Bool.false_ne_true, ← judges.holdsFile_iff takesUp member, isFile_iff]
      have opens := (judges.opens (List.ne_nil_of_mem member)).of_grows judges.made.plain
        judges.copies.plain judges.copies.current judges.copies.grows
      simp only [status_below_iff_opens judges.copies.plain (takesUp.names_ne_nil member)
        (takesUp.plainNames member)]
      constructor
      · rintro ⟨location, content, modified, mode, directory, otherwise, rfl, held⟩
        rw [opens.unique otherwise]
        exact ⟨content, modified, mode, held⟩
      · rintro ⟨content, modified, mode, held⟩
        exact ⟨_, content, modified, mode, _, opens, rfl, held⟩

theorem current_copy_stays_a_file :
    ∃ report later,
      (copyResources unhindered ⟨"src"⟩ ⟨"out"⟩ []).after (Progress.start copiesElsewhere) =
          (.ok report, later) ∧
        later.workspace.isFile ⟨"out/a"⟩ = true := by
  have plain : copiesElsewhere.tree.Plain := by
    decide +kernel
  have disjoint : DisjointTarget copiesElsewhere ⟨"src"⟩ ⟨"out"⟩ :=
    ⟨by decide +kernel, by decide +kernel⟩
  have reported :
      ((copyResources unhindered ⟨"src"⟩ ⟨"out"⟩ []).after
          (Progress.start copiesElsewhere)).1.toOption.isSome = true := by
    decide +kernel
  cases passed :
      (copyResources unhindered ⟨"src"⟩ ⟨"out"⟩ []).after (Progress.start copiesElsewhere) with
  | mk outcome later =>
      rw [passed] at reported
      cases outcome with
      | error failure =>
          cases reported
      | ok report =>
          refine ⟨report, later, rfl, ?_⟩
          have file : copiesElsewhere.tree.HoldsFile
              (copiesElsewhere.spelled ⟨"src"⟩ ++ ["a"]) :=
            ⟨[97], ⟨0⟩, 420, by decide +kernel⟩
          apply (resource_has_copy_iff_no_directory plain disjoint passed ["a"] file
            (by decide +kernel)).2
          rw [if_neg (by decide +kernel)]
          refine ⟨by decide +kernel, ?_⟩
          exact not_onTheWay_of_onward (by decide +kernel) (List.cons_ne_nil "a" [])

/-- A resource, and a directory that is newer at its destination. -/
def directoryForFile : Workspace :=
  ⟨⟨[([], .directory ⟨0⟩), (["src"], .directory ⟨0⟩), (["src", "r"], .file [114] ⟨0⟩ 420),
      (["out"], .directory ⟨0⟩), (["out", "r"], .directory ⟨5⟩)]⟩, [], ⟨"/home"⟩, ⟨9⟩, []⟩

/-- After a pass that succeeds every resource has a copy. -/
def LosesNothing : Prop :=
  ∀ (hindrances : Hindrances) (progress later : Progress) (root target : Path)
      (excluded : List Namespace) (report : ResourceReport),
    progress.workspace.tree.Plain → DisjointTarget progress.workspace root target →
      (copyResources hindrances root target excluded).after progress = (.ok report, later) →
        ∀ names,
          progress.workspace.tree.HoldsFile (progress.workspace.spelled root ++ names) →
            isResource excluded names = true → later.workspace.isFile (target.below names) = true

/-- A directory passes for the copy of a file. -/
theorem resources_can_be_lost : ¬ LosesNothing := by
  intro nothingLost
  have plain : directoryForFile.tree.Plain := by
    decide +kernel
  have disjoint : DisjointTarget directoryForFile ⟨"src"⟩ ⟨"out"⟩ :=
    ⟨by decide +kernel, by decide +kernel⟩
  have file :
      directoryForFile.tree.HoldsFile (directoryForFile.spelled ⟨"src"⟩ ++ ["r"]) :=
    ⟨[114], ⟨0⟩, 420, by decide +kernel⟩
  have reported :
      ((copyResources unhindered ⟨"src"⟩ ⟨"out"⟩ []).after
          (Progress.start directoryForFile)).1.toOption.isSome = true := by
    decide +kernel
  have lost :
      ((copyResources unhindered ⟨"src"⟩ ⟨"out"⟩ []).after
          (Progress.start directoryForFile)).2.workspace.isFile ⟨"out/r"⟩ = false := by
    decide +kernel
  cases passed :
      (copyResources unhindered ⟨"src"⟩ ⟨"out"⟩ []).after (Progress.start directoryForFile) with
  | mk outcome later =>
      rw [passed] at reported lost
      cases outcome with
      | error failure =>
          cases reported
      | ok report =>
          have kept := nothingLost unhindered _ later ⟨"src"⟩ ⟨"out"⟩ [] report plain disjoint passed
            ["r"] file (by decide +kernel)
          have isHere : (Path.mk "out").below ["r"] = ⟨"out/r"⟩ := by
            decide +kernel
          rw [isHere, lost] at kept
          cases kept

end ClojureBuild.Build
