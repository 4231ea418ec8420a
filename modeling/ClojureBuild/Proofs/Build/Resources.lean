import ClojureBuild.Build.Resources
import ClojureBuild.Proofs.Build.Detection
import ClojureBuild.Proofs.Workspace.Copies

/-!
# Copying resources

What a pass over a root does to a plain workspace whose target is a directory.  Every file below the
root that is no excluded source is refreshed at the same names below the target: its copy is up to
date and stays, or directories are made for it and the file is written.
-/

namespace ClojureBuild

namespace Workspace

variable {before after workspace : Workspace} {path base root target : Path}
variable {place location : Location} {names : List String} {entry : Entry}

/-- A path leads to the same entry after directories have been made. -/
theorem OnlyMade.status
    {places : Location → Prop} (plain : before.tree.Plain) (only : OnlyMade places before after)
    (found : before.status path = .ok (location, entry)) :
    after.status path = .ok (location, entry) := by
  obtain ⟨written, followed, held⟩ := (status_eq_ok_iff plain).1 found
  refine (status_eq_ok_iff only.plain).2 ⟨written, ?_, only.kept held⟩
  rw [only.current]
  exact only.grows.follow plain only.plain followed

/-- A file below a root is a resource unless its relative path spells an excluded namespace. -/
def isResource (excluded : List Namespace) (names : List String) : Bool :=
  !(Namespace.ofSourcePath? ⟨Text.joinWith "/" names⟩).any excluded.contains

/-- The names that lead to the resources below a root, in the order of a walk. -/
def resourceNames (workspace : Workspace) (root : Path) (location : Location) (target : Path)
    (excluded : List Namespace) : List (List String) :=
  ((workspace.fileNames location).filter (avoids (some target) root)).filter (isResource excluded)

theorem mem_resourceNames_iff
    (wellFormed : workspace.tree.WellFormed) {excluded : List Namespace} :
    names ∈ workspace.resourceNames root location target excluded ↔
      workspace.tree.HoldsFile (location ++ names) ∧
        avoids (some target) root names = true ∧ isResource excluded names = true := by
  rw [resourceNames, List.mem_filter, List.mem_filter, mem_fileNames_iff wellFormed, and_assoc]

end Workspace

theorem ResourceReport.ofPasses_eq (passes : List ResourceReport) :
    ofPasses passes = ⟨passes.flatMap copied, passes.flatMap unchanged⟩ := by
  have onward (start : ResourceReport) :
      passes.foldl append start =
        ⟨start.copied ++ passes.flatMap copied, start.unchanged ++ passes.flatMap unchanged⟩ := by
    induction passes generalizing start with
    | nil =>
        simp
    | cons pass rest inductionHypothesis =>
        rw [List.foldl_cons, inductionHypothesis, append]
        simp
  rw [ofPasses, onward]
  rfl

namespace Build

open Workspace

variable {root target source : Path} {place location : Location} {names : List String}
variable {progress later : Progress} {entry : Entry} {excluded : List Namespace}
variable {hindrances : Hindrances}

/-! ## One resource -/

/-- What can come of refreshing a resource: its copy is up to date, it is copied, the build fails
after some of the directories for it have been made, perhaps when a temporary file has come and gone in
the last one, or it fails when all but the permissions of the copy is there. -/
inductive Refreshed (place : Location) (names : List String) (destination : Path) (entry : Entry)
    (progress : Progress) : Except BuildError ResourceReport × Progress → Prop
  | upToDate (fresh : progress.workspace.NotOlder (place ++ names) entry.modified) :
      Refreshed place names destination entry progress (.ok ⟨[], [destination]⟩, progress)
  | copied {ready : Workspace} {content : List UInt8} {modified : Instant} {mode : Nat}
      (only : OnlyMade (Needed place names) progress.workspace ready)
      (isFile : entry = .file content modified mode)
      (directory : ready.tree.HoldsDirectory (place ++ names).dropLast)
      (noDirectory : ¬ ready.tree.HoldsDirectory (place ++ names))
      (stale : ¬ progress.workspace.NotOlder (place ++ names) entry.modified) :
      Refreshed place names destination entry progress
        (.ok ⟨[destination], []⟩,
          { progress with workspace := ready.written (place ++ names) content mode })
  | failed {ready : Workspace} {failure : BuildError}
      (only : OnlyMade (Needed place names) progress.workspace ready) :
      Refreshed place names destination entry progress
        (.error failure, { progress with workspace := ready })
  | undone {ready : Workspace} {failure : BuildError}
      (only : OnlyMade (Needed place names) progress.workspace ready) :
      Refreshed place names destination entry progress
        (.error failure,
          { progress with workspace := (ready.changing (place ++ names).dropLast).tick })
  | unfinished {ready : Workspace} {content : List UInt8} {modified : Instant} {mode : Nat}
      {failure : BuildError}
      (only : OnlyMade (Needed place names) progress.workspace ready)
      (isFile : entry = .file content modified mode)
      (directory : ready.tree.HoldsDirectory (place ++ names).dropLast)
      (noDirectory : ¬ ready.tree.HoldsDirectory (place ++ names))
      (stale : ¬ progress.workspace.NotOlder (place ++ names) entry.modified) :
      Refreshed place names destination entry progress
        (.error failure,
          { progress with workspace := ready.written (place ++ names) content temporaryMode })

theorem refreshed_copyInto
    (plain : progress.workspace.tree.Plain)
    (leads : progress.workspace.LeadsToDirectory target place) (nonempty : names ≠ [])
    (plainNames : ∀ name ∈ names, PlainName name)
    (found : progress.workspace.status source = .ok (location, entry))
    (stale : ¬ progress.workspace.NotOlder (place ++ names) entry.modified) :
    Refreshed place names (target.below names) entry progress
      ((do
          copyInto hindrances source (target.below names)
          return ⟨[target.below names], []⟩ : Build ResourceReport).after progress) := by
  obtain ⟨parent, isParent⟩ := Path.parent?_below_isSome target nonempty plainNames
  have opens := ((leadsToDirectory_iff_opens plain).1 leads).2
  have onTheWay := onlyMade_makeDirectories_parent plain nonempty plainNames isParent
  rw [← opens.eq_spelled plain] at onTheWay
  have only := onTheWay.onlyNeeded plain opens
  have forParent : (some parent).forM makeDirectories = makeDirectories parent := rfl
  rw [copyInto, isParent, forParent, bind_assoc]
  simp only [after_bind, after_makeDirectories]
  cases made : (progress.workspace.makeDirectories parent).1 with
  | error failure =>
      exact .failed only
  | ok value =>
      have leadsLater := only.leadsToDirectory plain leads
      have foundLater := only.status plain found
      simp only [Except.mapError, after_copyFile]
      cases copied :
          (progress.workspace.makeDirectories parent).2.copy hindrances source
            (target.below names) with
      | mk outcome after =>
          cases outcome with
          | error failure =>
              obtain rfl | rfl | ⟨content, modified, mode, isFile, directory, noDirectory, rfl⟩ :=
                of_copy_below_eq_error only.plain leadsLater nonempty plainNames foundLater copied
              · exact .failed only
              · exact .undone only
              · exact .unfinished only isFile directory noDirectory stale
          | ok _ =>
              obtain ⟨content, modified, mode, isFile, directory, noDirectory, rfl⟩ :=
                of_copy_below only.plain leadsLater nonempty plainNames foundLater copied
              exact .copied only isFile directory noDirectory stale

theorem refreshed_refreshResource
    (plain : progress.workspace.tree.Plain)
    (leads : progress.workspace.LeadsToDirectory target place)
    (nonempty : names ≠ []) (fileNames : ∀ name ∈ names, FileName name) {content : List UInt8}
    {modified : Instant} {mode : Nat}
    (found : progress.workspace.status source = .ok (location, .file content modified mode)) :
    Refreshed place names (target.below names) (.file content modified mode) progress
      ((refreshResource hindrances (target.below names) source).after progress) := by
  have plainNames : ∀ name ∈ names, PlainName name :=
    fun name member => (fileNames name member).toPlainName
  have freshIff := isFresh_below_iff plain leads plainNames found
  rw [refreshResource, after_bind_of_ok (after_get progress), after_bind, ofSystem,
    after_ofExcept]
  cases fresh : progress.workspace.isFresh (target.below names) source with
  | error failure =>
      exact .failed (OnlyMade.refl plain _)
  | ok isFresh =>
      cases isFresh with
      | true =>
          exact .upToDate (freshIff.1 fresh)
      | false =>
          have stale : ¬ progress.workspace.NotOlder (place ++ names) modified := by
            intro notOlder
            rw [freshIff.2 notOlder] at fresh
            cases fresh
          exact refreshed_copyInto plain leads nonempty plainNames found stale

/-! ## A pass over a root -/

theorem resourcesBelow_map
    {files : List (List String)}
    (named : ∀ names ∈ files, names ≠ [] ∧ ∀ name ∈ names, PlainName name) :
    resourcesBelow root target excluded (files.map root.below) =
      (files.filter (isResource excluded)).map fun names =>
        (target.below names, root.below names) := by
  rw [resourcesBelow, List.filterMap_map, ← List.filterMap_eq_map, List.filterMap_filter]
  refine List.filterMap_congr ?_
  intro names member
  obtain ⟨nonempty, plainNames⟩ := named names member
  simp only [Function.comp_apply, Path.relativeTo?_below root nonempty plainNames,
    Option.bind_some, isResource, ← Path.below_eq_join target nonempty plainNames]
  by_cases spelled :
      (Namespace.ofSourcePath? ⟨Text.joinWith "/" names⟩).any excluded.contains = true
  · simp [spelled]
  · simp [spelled]

/-- A pass over a root refreshes its resources one by one. -/
theorem after_copyResources
    (plain : progress.workspace.tree.Plain)
    (leads : progress.workspace.LeadsToDirectory root location)
    (named : root.same standardInput = false) :
    (copyResources hindrances root target excluded).after progress =
      ((progress.workspace.resourceNames root location target excluded).mapM
          (fun names => refreshResource hindrances (target.below names) (root.below names)) >>=
        fun passes => pure (ResourceReport.ofPasses passes)).after progress := by
  have directory : progress.workspace.isDirectory root = true :=
    isDirectory_iff_leadsToDirectory.2 ⟨location, leads⟩
  have filesNamed :
      ∀ names ∈ (progress.workspace.fileNames location).filter (avoids (some target) root),
        names ≠ [] ∧ ∀ name ∈ names, PlainName name := by
    intro names member
    have inFiles := (List.mem_filter.1 member).1
    refine ⟨?_, plainName_of_mem_fileNames plain.toWellFormed inFiles⟩
    rintro rfl
    exact nil_notMem_fileNames plain.toWellFormed
      leads.holdsDirectory inFiles
  rw [copyResources, after_bind, after_checkRoot]
  simp only [directory, if_true]
  rw [after_bind_of_ok (after_get progress), after_bind, after_ofReported,
    walk_eq plain (some target) leads named]
  simp only [Except.mapError, List.append_nil]
  rw [resourcesBelow_map filesNamed, List.mapM_map, resourceNames]
  rfl

end Build

end ClojureBuild
