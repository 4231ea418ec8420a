import ClojureBuild.Proofs.Build.Plan
import ClojureBuild.Proofs.Build.Resources
import ClojureBuild.Proofs.Workspace.Filled

/-!
# Filling a target

Whatever becomes of a pass over a root, it does nothing but fill the target.
-/

namespace ClojureBuild

namespace Build

open Workspace

variable {root target destination : Path} {place location : Location} {names : List String}
variable {progress later : Progress} {entry : Entry} {excluded : List Namespace}
variable {hindrances : Hindrances}

theorem below_of_needed :
    ∀ location, Needed place names location → ∃ inner, location = place ++ inner := by
  rintro location ⟨initial, -, -, same⟩
  exact ⟨initial, same⟩

/-- Refreshing a resource fills the target. -/
theorem Refreshed.filled
    {result : Except BuildError ResourceReport × Progress}
    (refreshed : Refreshed place names destination entry progress result)
    (plain : progress.workspace.tree.Plain) (nonempty : names ≠ [])
    (fileNames : ∀ name ∈ names, FileName name) :
    Filled place progress.workspace result.2.workspace := by
  cases refreshed with
  | upToDate fresh =>
      exact Filled.refl plain place
  | copied only isFile directory noDirectory stale =>
      exact (only.filled below_of_needed).trans
        (filled_written only.plain nonempty fileNames directory noDirectory _ _)
  | failed only =>
      exact only.filled below_of_needed
  | undone only =>
      exact (only.filled below_of_needed).trans (filled_changing only.plain place _)
  | unfinished only isFile directory noDirectory stale =>
      exact (only.filled below_of_needed).trans
        (filled_written only.plain nonempty fileNames directory noDirectory _ _)

/-- What holds of a resource in a workspace that has been filled since the pass began. -/
theorem refreshed_of_filled
    {start : Workspace} (startPlain : start.tree.Plain)
    (leads : start.LeadsToDirectory target place)
    (rootLeads : start.LeadsToDirectory root location)
    (member : start.tree.HoldsFile (location ++ names))
    (filled : Filled place start progress.workspace) :
    names ≠ [] ∧ (∀ name ∈ names, FileName name) ∧
      ∃ content modified mode,
        progress.workspace.tree.find? (location ++ names) =
            some (.file content modified mode) ∧
          Refreshed place names (target.below names) (.file content modified mode) progress
            ((refreshResource hindrances (target.below names) (root.below names)).after progress) := by
  have nonempty : names ≠ [] := by
    rintro rfl
    rw [List.append_nil] at member
    exact member.not_holdsDirectory rootLeads.holdsDirectory
  have fileNames : ∀ name ∈ names, FileName name := by
    obtain ⟨content, modified, mode, found⟩ := member
    exact startPlain.fileName_of_mem found
  obtain ⟨content, modified, mode, found⟩ := filled.grows.files member
  refine ⟨nonempty, fileNames, content, modified, mode, found, ?_⟩
  have status :
      progress.workspace.status (root.below names) =
        .ok (location ++ names, .file content modified mode) :=
    (status_below_iff filled.plain (filled.leadsToDirectory startPlain rootLeads)
      fun name inNames => (fileNames name inNames).toPlainName).2 ⟨rfl, found⟩
  exact refreshed_refreshResource filled.plain (filled.leadsToDirectory startPlain leads) nonempty
    fileNames status

theorem filled_refreshResource
    {start : Workspace} (startPlain : start.tree.Plain)
    (leads : start.LeadsToDirectory target place)
    (rootLeads : start.LeadsToDirectory root location)
    (member : start.tree.HoldsFile (location ++ names))
    (filled : Filled place start progress.workspace) :
    Filled place progress.workspace
      ((refreshResource hindrances (target.below names) (root.below names)).after
        progress).2.workspace := by
  rcases refreshed_of_filled startPlain leads rootLeads member filled with
    ⟨nonempty, fileNames, content, modified, mode, -, refreshed⟩
  exact refreshed.filled filled.plain nonempty fileNames

theorem after_copyResources_of_missing (missing : progress.workspace.isDirectory root = false) :
    (copyResources hindrances root target excluded).after progress =
      (.error (.sourceRootNotFound root), progress) := by
  rw [copyResources, after_bind, after_checkRoot]
  simp [missing]

theorem leads_of_copyResources
    {report : ResourceReport} (plain : progress.workspace.tree.Plain)
    (absolute : root.isAbsolute = true)
    (passed : (copyResources hindrances root target excluded).after progress = (.ok report, later)) :
    progress.workspace.LeadsToDirectory root (placeOf root) := by
  cases directory : progress.workspace.isDirectory root with
  | false =>
      rw [after_copyResources_of_missing directory] at passed
      cases passed
  | true =>
      rcases isDirectory_iff_leadsToDirectory.1 directory with ⟨location, leads⟩
      have isPlace := eq_placeOf_of_leadsToDirectory plain absolute leads
      subst isPlace
      exact leads

/-- A pass over a root fills the target, whether it succeeds or not. -/
theorem filled_copyResources
    (plain : progress.workspace.tree.Plain)
    (leads : progress.workspace.LeadsToDirectory target place)
    (rootAbsolute : root.isAbsolute = true) :
    Filled place progress.workspace
      ((copyResources hindrances root target excluded).after progress).2.workspace := by
  cases directory : progress.workspace.isDirectory root with
  | false =>
      rw [after_copyResources_of_missing directory]
      exact Filled.refl plain place
  | true =>
      rcases isDirectory_iff_leadsToDirectory.1 directory with ⟨location, rootLeads⟩
      rw [after_copyResources plain rootLeads (same_standardInput_of_isAbsolute rootAbsolute)]
      have keeps :
          Keeps (fun reached => Filled place progress.workspace reached.workspace)
            ((progress.workspace.resourceNames root location target excluded).mapM
              (fun names => refreshResource hindrances (target.below names) (root.below names)) >>=
                fun passes => pure (ResourceReport.ofPasses passes)) := by
        refine Keeps.bind (Keeps.mapM fun names member reached filled => ?_) fun filled _ =>
          filled
        have file := ((mem_resourceNames_iff plain.toWellFormed).1 member).1
        exact filled.trans (filled_refreshResource plain leads rootLeads file filled)
      exact keeps progress (Filled.refl plain place)

/-- What refreshing a resource achieves, and filling the target does not undo, holds after a pass
that succeeds. -/
theorem of_copyResources
    (good : Workspace → Prop) {report : ResourceReport}
    (plain : progress.workspace.tree.Plain)
    (leads : progress.workspace.LeadsToDirectory target place) (rootAbsolute : root.isAbsolute = true)
    (file : progress.workspace.tree.HoldsFile (placeOf root ++ names))
    (avoided : avoids (some target) root names = true)
    (included : isResource excluded names = true)
    (achieves : ∀ {result reached next entry}, Filled place progress.workspace reached.workspace →
      reached.workspace.tree.find? (placeOf root ++ names) = some entry →
        Refreshed place names (target.below names) entry reached (.ok result, next) →
          good next.workspace)
    (stays : ∀ {before after}, Filled place progress.workspace before → Filled place before after →
      good before → good after)
    (passed : (copyResources hindrances root target excluded).after progress = (.ok report, later)) :
    good later.workspace := by
  have rootLeads := leads_of_copyResources plain rootAbsolute passed
  rw [after_copyResources plain rootLeads (same_standardInput_of_isAbsolute rootAbsolute)] at passed
  rcases after_bind_eq_ok_iff.1 passed with ⟨passes, final, refreshing, last⟩
  rw [after_pure, Prod.mk.injEq] at last
  rcases last with ⟨-, rfl⟩
  have inNames :=
    (mem_resourceNames_iff plain.toWellFormed).2 ⟨file, avoided, included⟩
  have step {other : List String} {between : Progress}
      (inOther : other ∈
        progress.workspace.resourceNames root (placeOf root) target excluded)
      (filled : Filled place progress.workspace between.workspace) :
      Filled place between.workspace
        ((refreshResource hindrances (target.below other) (root.below other)).after
          between).2.workspace :=
    filled_refreshResource plain leads rootLeads
      ((mem_resourceNames_iff plain.toWellFormed).1 inOther).1 filled
  have keeps :
      ∀ other ∈ progress.workspace.resourceNames root (placeOf root) target excluded,
        Keeps (fun between => Filled place progress.workspace between.workspace)
          (refreshResource hindrances (target.below other) (root.below other)) :=
    fun other inOther between filled => filled.trans (step inOther filled)
  have remains :
      ∀ other ∈ progress.workspace.resourceNames root (placeOf root) target excluded,
        Keeps
          (fun between => Filled place progress.workspace between.workspace ∧
            good between.workspace)
          (refreshResource hindrances (target.below other) (root.below other)) := by
    rintro other inOther between ⟨filled, held⟩
    exact ⟨filled.trans (step inOther filled), stays filled (step inOther filled) held⟩
  have achieved :=
    achieved_of_after_mapM inNames keeps
      (fun {result between next} filled one => by
        have kept := filled.trans (step inNames filled)
        rcases refreshed_of_filled plain leads rootLeads file filled with
          ⟨-, -, _, _, _, held, refreshed⟩
        rw [one] at kept refreshed
        exact ⟨kept, achieves filled held refreshed⟩)
      remains (Filled.refl plain place) refreshing
  exact achieved.2

end Build

end ClojureBuild
