import ClojureBuild.Proofs.Build.Preparation
import ClojureBuild.Proofs.Build.Resources

/-!
# What mirroring does

Passes over roots take up resources one after the other, in a workspace with any links.  A resource
whose copy is up to date is left alone; every other one is written to its destination.
-/

namespace ClojureBuild

theorem ResourceReport.append_assoc (first second third : ResourceReport) :
    (first.append second).append third = first.append (second.append third) := by
  simp only [append, List.append_assoc]

theorem ResourceReport.ofPasses_cons (pass : ResourceReport) (passes : List ResourceReport) :
    ofPasses (pass :: passes) = pass.append (ofPasses passes) := by
  simp only [ofPasses_eq, append, List.flatMap_cons]

namespace Build

/-- A file is written to a destination at the next instant, after the directories for it have been
made, with a temporary file in one of them. -/
def CopiedTo (source destination : Path) (before after : Workspace) : Prop :=
  ∃ parent made directory location place content modified mode,
    destination.parent? = some parent ∧ before.makeDirectories parent = (.ok (), made) ∧
      made.WorksIn destination directory ∧
        made.status source = .ok (location, .file content modified mode) ∧
          made.placeFor destination = .ok place ∧
            after = (made.changing directory).written place content mode

/-- Resources are taken up in order, each given with its destination in front.  The report tells of
those that were written and of those that were up to date. -/
inductive Mirrors : List (Path × Path) → ResourceReport → Workspace → Workspace → Prop
  | done (workspace : Workspace) : Mirrors [] .empty workspace workspace
  | upToDate {before after : Workspace} {source destination : Path} {rest : List (Path × Path)}
      {report : ResourceReport} (fresh : before.isFresh destination source = .ok true)
      (others : Mirrors rest report before after) :
      Mirrors ((destination, source) :: rest) (.append ⟨[], [destination]⟩ report) before after
  | written {before between after : Workspace} {source destination : Path}
      {rest : List (Path × Path)} {report : ResourceReport}
      (stale : before.isFresh destination source = .ok false)
      (copied : CopiedTo source destination before between)
      (others : Mirrors rest report between after) :
      Mirrors ((destination, source) :: rest) (.append ⟨[destination], []⟩ report) before after

variable {before between after : Workspace} {root target source destination : Path}
variable {pairs rest : List (Path × Path)} {report others : ResourceReport}
variable {progress later : Progress} {excluded : List Namespace} {plan : Plan}
variable {hindrances : Hindrances}

namespace Mirrors

theorem append (first : Mirrors pairs report before between)
    (second : Mirrors rest others between after) :
    Mirrors (pairs ++ rest) (report.append others) before after := by
  induction first with
  | done workspace =>
      exact second
  | upToDate fresh _ inductionHypothesis =>
      rw [ResourceReport.append_assoc]
      exact .upToDate fresh (inductionHypothesis second)
  | written stale copied _ inductionHypothesis =>
      rw [ResourceReport.append_assoc]
      exact .written stale copied (inductionHypothesis second)

/-- Where nothing has been written nothing has changed. -/
theorem eq_of_copied_eq_nil (mirrors : Mirrors pairs report before after)
    (copied : report.copied = []) : after = before := by
  induction mirrors with
  | done workspace =>
      rfl
  | upToDate _ _ inductionHypothesis =>
      exact inductionHypothesis copied
  | written _ _ _ _ =>
      cases copied

end Mirrors

/-! ## One resource -/

theorem copiedTo_of_copyInto
    (done : (copyInto hindrances source destination).after progress = (.ok (), later)) :
    CopiedTo source destination progress.workspace later.workspace := by
  obtain ⟨_, ready, prepared, copying⟩ := after_bind_eq_ok_iff.1 done
  rw [after_copyFile, Prod.mk.injEq, mapError_eq_ok_iff] at copying
  obtain ⟨isCopy, rfl⟩ := copying
  obtain ⟨directory, location, place, content, modified, mode, works, found, placed, isWritten⟩ :=
    Workspace.of_copy (Prod.ext isCopy rfl)
  cases isParent : destination.parent? with
  | none =>
      -- without a directory for it nothing is copied
      simp only [Workspace.copy, Workspace.copyThrough, Workspace.replace, isParent, reduceCtorEq]
        at isCopy
  | some parent =>
      have forParent : (some parent).forM makeDirectories = makeDirectories parent := rfl
      rw [isParent, forParent, after_makeDirectories, Prod.mk.injEq, mapError_eq_ok_iff]
        at prepared
      obtain ⟨succeeded, rfl⟩ := prepared
      have made :
          progress.workspace.makeDirectories parent =
            (.ok (), (progress.workspace.makeDirectories parent).2) :=
        Prod.ext succeeded rfl
      exact ⟨parent, (progress.workspace.makeDirectories parent).2, directory, location, place,
        content, modified, mode, isParent, made, works, found, placed, isWritten⟩

theorem mirrors_of_refreshResource
    (done : (refreshResource hindrances destination source).after progress = (.ok report, later)) :
    Mirrors [(destination, source)] report progress.workspace later.workspace := by
  rw [refreshResource, after_bind_of_ok (after_get progress), after_bind_eq_ok_iff] at done
  obtain ⟨fresh, reached, decided, done⟩ := done
  rw [ofSystem, after_ofExcept, Prod.mk.injEq, mapError_eq_ok_iff] at decided
  obtain ⟨isFresh, rfl⟩ := decided
  cases fresh with
  | true =>
      cases done
      exact .upToDate isFresh (.done _)
  | false =>
      obtain ⟨_, between, copied, last⟩ := after_bind_eq_ok_iff.1 done
      cases last
      exact .written isFresh (copiedTo_of_copyInto copied) (.done _)

/-! ## Passes -/

theorem mirrors_of_mapM {passes : List ResourceReport}
    (done : (pairs.mapM fun (destination, source) => refreshResource hindrances destination source).after
      progress = (.ok passes, later)) :
    Mirrors pairs (.ofPasses passes) progress.workspace later.workspace := by
  induction pairs generalizing progress passes with
  | nil =>
      cases done
      exact .done _
  | cons pair rest inductionHypothesis =>
      obtain ⟨pass, between, others, first, behind, rfl⟩ := after_mapM_cons_eq_ok_iff.1 done
      rw [ResourceReport.ofPasses_cons]
      exact (mirrors_of_refreshResource first).append (inductionHypothesis behind)

/-- A resource of a plan: a file below a root, with its destination at the same relative path below
the target. -/
def IsResource (plan : Plan) (pair : Path × Path) : Prop :=
  ∃ root ∈ plan.sources.roots, ∃ relative,
    pair.2.relativeTo? root = some relative ∧ pair.1 = plan.target.join relative

theorem isResource_of_mem_resourcesBelow {files : List Path} {pair : Path × Path}
    (isRoot : root ∈ plan.sources.roots)
    (member : pair ∈ resourcesBelow root plan.target excluded files) : IsResource plan pair := by
  obtain ⟨file, -, isPair⟩ := List.mem_filterMap.1 member
  obtain ⟨relative, isRelative, kept⟩ := Option.bind_eq_some_iff.1 isPair
  split at kept
  · cases kept
  · cases kept
    exact ⟨root, isRoot, relative, isRelative, rfl⟩

/-- A pass takes up what its walk has found. -/
theorem exists_walk_of_copyResources
    (done : (copyResources hindrances root target excluded).after progress = (.ok report, later)) :
    ∃ files notices, progress.workspace.isDirectory root = true ∧
      progress.workspace.walk root (some target) = (.ok files, notices) ∧
        Mirrors (resourcesBelow root target excluded files) report progress.workspace
          later.workspace := by
  obtain ⟨_, checked, isDirectory, walking⟩ := after_bind_eq_ok_iff.1 done
  rw [after_checkRoot] at isDirectory
  obtain ⟨isRoot, rfl⟩ := Prod.mk.inj isDirectory
  rw [after_bind_of_ok (after_get progress), after_bind_eq_ok_iff] at walking
  obtain ⟨files, walked, listed, passing⟩ := walking
  rw [after_ofReported] at listed
  obtain ⟨found, rfl⟩ := Prod.mk.inj listed
  rw [mapError_eq_ok_iff] at found
  obtain ⟨passes, reached, passed, last⟩ := after_bind_eq_ok_iff.1 passing
  cases last
  have mirrors := mirrors_of_mapM passed
  refine ⟨files, _, ?_, Prod.ext found rfl, mirrors⟩
  by_contra noDirectory
  rw [if_neg noDirectory] at isRoot
  cases isRoot

/-- A pass over a root. -/
theorem mirrors_of_copyResources (isRoot : root ∈ plan.sources.roots)
    (done : (copyResources hindrances root plan.target excluded).after progress =
      (.ok report, later)) :
    ∃ pairs, (∀ pair ∈ pairs, IsResource plan pair) ∧
      Mirrors pairs report progress.workspace later.workspace := by
  obtain ⟨files, notices, -, -, mirrors⟩ := exists_walk_of_copyResources done
  exact ⟨_, fun pair => isResource_of_mem_resourcesBelow isRoot, mirrors⟩

/-- Passes over roots. -/
theorem mirrors_of_passes {roots : List Path} {passes : List ResourceReport}
    (areRoots : ∀ root ∈ roots, root ∈ plan.sources.roots)
    (done : (roots.mapM fun root => copyResources hindrances root plan.target excluded).after
      progress = (.ok passes, later)) :
    ∃ pairs, (∀ pair ∈ pairs, IsResource plan pair) ∧
      Mirrors pairs (.ofPasses passes) progress.workspace later.workspace := by
  induction roots generalizing progress passes with
  | nil =>
      cases done
      exact ⟨[], by simp, .done _⟩
  | cons root rest inductionHypothesis =>
      obtain ⟨pass, between, others, first, behind, rfl⟩ := after_mapM_cons_eq_ok_iff.1 done
      obtain ⟨pairs, resources, mirrors⟩ :=
        mirrors_of_copyResources (areRoots root List.mem_cons_self) first
      obtain ⟨more, moreResources, moreMirrors⟩ :=
        inductionHypothesis (fun root member => areRoots root (List.mem_cons_of_mem _ member))
          behind
      rw [ResourceReport.ofPasses_cons]
      refine ⟨pairs ++ more, ?_, mirrors.append moreMirrors⟩
      intro pair member
      cases List.mem_append.1 member with
      | inl inFirst =>
          exact resources pair inFirst
      | inr inRest =>
          exact moreResources pair inRest

end Build

end ClojureBuild
