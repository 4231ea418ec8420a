import ClojureBuild.Proofs.Build.Overlooking
import ClojureBuild.Proofs.Workspace.Absolute
import ClojureBuild.Proofs.Workspace.Lasting

/-!
# Files that a build opens

In a workspace without links every file that a build opens in order to copy it lies below one of its
sources, however it is spelled.  So a build copies nothing that lies outside its sources.
-/

namespace ClojureBuild

namespace Workspace

variable {workspace : Workspace} {path : Path} {place : Location} {hindrances : Hindrances}

/-! ## Plain workspaces -/

theorem plain_makeDirectories (plain : workspace.tree.Plain) (path : Path) :
    (workspace.makeDirectories path).2.tree.Plain :=
  (onlyMade_makeDirectories_from plain path).1.plain

theorem plain_written_of_placeFor (plain : workspace.tree.Plain)
    (placed : workspace.placeFor path = .ok place) (content : List UInt8) (mode : Nat) :
    (workspace.written place content mode).tree.Plain := by
  obtain ⟨directory, name, rfl, holds, fileName, noDirectory⟩ :=
    exists_directory_of_placeFor plain.toWellFormed placed
  exact plain_written plain holds fileName noDirectory content mode

/-- Whatever comes of a copy, it leaves no link. -/
theorem plain_copy (plain : workspace.tree.Plain) (source destination : Path) :
    (workspace.copy hindrances source destination).2.tree.Plain := by
  obtain undone | ⟨directory, place, content, mode, -, placed, isWritten⟩ :=
    copy_cases workspace hindrances source destination
  · rw [undone.tree_eq]
    exact plain
  · have plainLater : (workspace.changing directory).tree.Plain := plain
    rw [isWritten]
    exact plain_written_of_placeFor plainLater placed content mode

/-- A location lies below none of the sources. -/
def Outside (workspace : Workspace) (sources : List Path) (location : Location) : Prop :=
  ∀ source ∈ sources, ∀ root, workspace.absolute source = .ok root → ¬ placeOf root <+: location

end Workspace

namespace Build

open Workspace

variable {tools : Tools} {plan : Plan} {start : Progress} {found : Workspace}
variable {root target source destination : Path} {excluded : List Namespace}
variable {sources : List Path} {dependencies : List Dependency} {options : BuildOptions}
variable {hidden : List Location}

/-- No link is held. -/
def Linkless (workspace : Workspace) : Prop :=
  workspace.tree.Plain

theorem keepsWorkspace_makeDirectories_linkless (path : Path) :
    KeepsWorkspace Linkless (makeDirectories path) := by
  intro progress plain
  rw [after_makeDirectories]
  exact plain_makeDirectories plain path

theorem linkless_copy {workspace : Workspace} (plain : Linkless workspace)
    (hindrances : Hindrances) (source destination : Path) :
    Linkless (workspace.copy hindrances source destination).2 :=
  plain_copy plain source destination

/-! ## Steps that come to an item -/

/-- What every step keeps holds when the steps come to an item. -/
theorem ComesTo.of_keeps {α β : Type} {invariant : Progress → Prop} {step : α → Build β}
    {items : List α} {item : α} {reached : Progress}
    (comes : ComesTo step items start item reached)
    (each : ∀ item, Keeps invariant (step item)) (held : invariant start) :
    item ∈ items ∧ invariant reached := by
  obtain ⟨before, rest, results, rfl, succeeded⟩ := comes
  have kept : Keeps invariant (before.mapM step) := Keeps.mapM fun item _ => each item
  specialize kept start held
  rw [succeeded] at kept
  exact ⟨by simp, kept⟩

theorem linkless_of_refreshOpens (plain : Linkless start.workspace)
    (opens : RefreshOpens destination source start found) : Linkless found := by
  obtain ⟨-, value, reached, made, rfl⟩ := opens
  cases isParent : destination.parent? with
  | none =>
      rw [isParent] at made
      cases made
      exact plain
  | some parent =>
      have kept := keepsWorkspace_makeDirectories_linkless parent start plain
      rw [isParent] at made
      rwa [show (makeDirectories parent).after start = (.ok value, reached) from made] at kept

theorem of_passOpens (plain : Linkless start.workspace) (absolute : root.isAbsolute = true)
    (opens : PassOpens hindrances root target excluded start source found) :
    Linkless found ∧ ∃ names, (∀ name ∈ names, PlainName name) ∧ source = root.below names := by
  obtain ⟨files, notices, destination, reached, directory, walked, comes, opens⟩ := opens
  obtain ⟨listed, reachedPlain⟩ := comes.of_keeps
    (fun held => keepsWorkspace_refreshResource keepsWorkspace_makeDirectories_linkless
      linkless_copy held.1 held.2) plain
  refine ⟨linkless_of_refreshOpens reachedPlain opens, ?_⟩
  obtain ⟨file, member, isHeld⟩ := List.mem_filterMap.1 listed
  obtain ⟨relative, -, isHeld⟩ := Option.bind_eq_some_iff.1 isHeld
  have isFiles : (start.workspace.walk root (some target)).1 = .ok files := by
    rw [walked]
  obtain ⟨names, finds, rfl⟩ :=
    (mem_walk_iff plain.toWellFormed directory (same_standardInput_of_isAbsolute absolute)
      isFiles).1 member
  split at isHeld
  · cases isHeld
  · cases isHeld
    exact ⟨names, finds.plain, rfl⟩

/-- Without links every file that a build opens lies below one of its sources. -/
theorem of_opensToCopy (plain : Linkless start.workspace)
    (linkless : RunnerKeeps tools.runner Linkless)
    (opens : OpensToCopy tools sources target dependencies options start source found) :
    Linkless found ∧ ∃ given ∈ sources, ∃ root names, start.workspace.absolute given = .ok root ∧
      (∀ name ∈ names, PlainName name) ∧ source = root.below names := by
  obtain ⟨plan, planned, planning, compiled, prepared, root, reached, preparing, comes, opens⟩ :=
    opens
  obtain ⟨isPlan, unchanged, -⟩ :=
    (reads_makePlan tools sources target dependencies options).of_after_eq_ok planning
  obtain ⟨-, splits, -⟩ := readPlan_eq_ok_iff.1 isPlan
  have plannedPlain : Linkless planned.workspace := by
    rwa [unchanged]
  have preparedPlain :=
    (MakesTarget.of_keeps
      (keepsWorkspace_makeDirectories_linkless plan.target)).keepsWorkspace_prepareTarget
        linkless planned plannedPlain
  rw [preparing] at preparedPlain
  obtain ⟨member, reachedPlain⟩ := comes.of_keeps
    (fun root => keepsWorkspace_copyResources keepsWorkspace_makeDirectories_linkless
      linkless_copy root plan.target plan.namespaces) preparedPlain
  obtain ⟨-, given, inSources, form⟩ := (sorted_of_foldlM splits).roots root member
  obtain ⟨foundPlain, names, plainNames, isSource⟩ :=
    of_passOpens reachedPlain (isAbsolute_of_absolute form) opens
  exact ⟨foundPlain, given, inSources, root, names, form, plainNames, isSource⟩

/-- Without links a build opens nothing outside its sources. -/
theorem unconcealed_of_outside (plain : Linkless start.workspace)
    (linkless : RunnerKeeps tools.runner Linkless)
    (outside : ∀ location ∈ hidden, start.workspace.Outside sources location)
    (opens : OpensToCopy tools sources target dependencies options start source found) :
    Unconcealed hidden source found := by
  obtain ⟨foundPlain, given, inSources, root, names, form, plainNames, rfl⟩ :=
    of_opensToCopy plain linkless opens
  intro location entry isFound isHidden
  have absolute : (root.below names).isAbsolute = true :=
    Path.isAbsolute_below_of_left (isAbsolute_of_absolute form) names
  have place : location = placeOf root ++ names := by
    rw [spelled_of_status foundPlain isFound, spelled_of_isAbsolute absolute,
      placeOf_below root plainNames]
  exact outside location isHidden given inSources root form (place ▸ List.prefix_append _ names)

end Build

end ClojureBuild
