import ClojureBuild.Proofs.Build.Delegation
import ClojureBuild.Proofs.Build.Plan
import ClojureBuild.Proofs.Workspace.Directories

/-!
# Preparing the target

Before resources are copied, the batch is run if need be and the target is made.  What this keeps and
what it leaves follows from what the commands and the making of the target keep.
-/

namespace ClojureBuild.Build

open Workspace

variable {tools : Tools} {plan : Plan} {progress later : Progress} {compiled : Bool} {target : Path}
variable {invariant ready final : Workspace → Prop}

/-- Run the batch if need be, and make the target. -/
def prepareTarget (tools : Tools) (plan : Plan) : Build Bool := do
  let compiled ←
    compileNamespaces tools plan.namespaces plan.definitions plan.classpath plan.target
  makeDirectories plan.target
  return compiled

/-- A target is filled by preparing it and then copying the resources below every root. -/
theorem fillTarget_eq (tools : Tools) (plan : Plan) :
    fillTarget tools plan =
      prepareTarget tools plan >>= fun compiled =>
        plan.sources.roots.mapM (fun root =>
            copyResources tools.hindrances root plan.target plan.namespaces) >>= fun passes =>
          pure (compiled, passes) := by
  simp only [fillTarget, prepareTarget, bind_assoc, pure_bind]

namespace MakesTarget

theorem keepsWorkspace_prepareTarget
    (makes : MakesTarget plan.target invariant ready) (kept : RunnerKeeps tools.runner ready) :
    KeepsWorkspace invariant (prepareTarget tools plan) := by
  have batch : KeepsWorkspace invariant
      (compileNamespaces tools plan.namespaces plan.definitions plan.classpath plan.target) :=
    makes.keepsWorkspace_compileNamespaces kept
  have ended (compiled : Bool) : KeepsWorkspace invariant (pure compiled : Build Bool) :=
    Keeps.pure compiled
  exact batch.bind fun held _ => makes.keeps.bind (fun held _ => ended _ _ held) _ held

/-- When the target has been prepared, it has been made last. -/
theorem of_prepareTarget
    (makes : MakesTarget plan.target invariant ready) (kept : RunnerKeeps tools.runner ready)
    (last : MakesTarget plan.target invariant final) (held : invariant progress.workspace)
    (prepared : (prepareTarget tools plan).after progress = (.ok compiled, later)) :
    final later.workspace := by
  have batch : KeepsWorkspace invariant
      (compileNamespaces tools plan.namespaces plan.definitions plan.classpath plan.target) :=
    makes.keepsWorkspace_compileNamespaces kept
  obtain ⟨isCompiled, between, ran, making⟩ := after_bind_eq_ok_iff.1 prepared
  have heldBetween := batch progress held
  rw [ran] at heldBetween
  obtain ⟨value, reached, made, ended⟩ := after_bind_eq_ok_iff.1 making
  cases ended
  exact last.succeeds heldBetween made

/-- In a plain workspace a target that has been made leads to a directory. -/
theorem plain (absolute : target.isAbsolute = true) :
    MakesTarget target (fun workspace => workspace.tree.Plain) fun workspace =>
      workspace.tree.Plain ∧ workspace.LeadsToDirectory target (placeOf target) where
  keeps := by
    intro progress isPlain
    rw [after_makeDirectories]
    dsimp only
    exact (onlyMade_makeDirectories isPlain absolute).1.plain
  succeeds := by
    intro progress later isPlain made
    obtain ⟨only, leads⟩ := onlyMade_makeDirectories isPlain absolute
    rw [after_makeDirectories, Prod.mk.injEq, mapError_eq_ok_iff] at made
    obtain ⟨outcome, rfl⟩ := made
    dsimp only
    exact ⟨only.plain, leads outcome⟩
  stronger := And.left

end MakesTarget

/-! ## Copying -/

section Copying

variable (made : ∀ path, KeepsWorkspace invariant (makeDirectories path))
variable (copied : ∀ {workspace : Workspace}, invariant workspace →
  ∀ hindrances source destination, invariant (workspace.copy hindrances source destination).2)
variable {hindrances : Hindrances}

include made copied in
theorem keepsWorkspace_copyInto (source destination : Path) :
    KeepsWorkspace invariant (copyInto hindrances source destination) := by
  have parents : KeepsWorkspace invariant (destination.parent?.forM makeDirectories) := by
    cases destination.parent? with
    | none =>
        exact Keeps.pure PUnit.unit
    | some parent =>
        exact made parent
  refine parents.bind fun {_ progress later} held _ => ?_
  rw [after_copyFile]
  exact copied held hindrances source destination

include made copied in
theorem keepsWorkspace_refreshResource (destination source : Path) :
    KeepsWorkspace invariant (refreshResource hindrances destination source) := by
  have copies : KeepsWorkspace invariant
      (copyInto hindrances source destination >>= fun _ =>
        (pure ⟨[destination], []⟩ : Build ResourceReport)) :=
    (keepsWorkspace_copyInto made copied source destination).bind fun held _ => held
  intro progress held
  rw [refreshResource, after_bind_of_ok (after_get progress), ofSystem]
  cases progress.workspace.isFresh destination source with
  | error failure =>
      exact held
  | ok fresh =>
      rw [after_bind_of_ok (after_ofExcept_ok _ fresh progress)]
      cases fresh with
      | true =>
          rw [if_pos rfl]
          exact held
      | false =>
          rw [if_neg Bool.false_ne_true]
          exact copies progress held

include made copied in
theorem keepsWorkspace_copyResources (root target : Path) (excluded : List Namespace) :
    KeepsWorkspace invariant (copyResources hindrances root target excluded) := by
  have passes (files : List Path) : KeepsWorkspace invariant
      ((resourcesBelow root target excluded files).mapM (fun held =>
          refreshResource hindrances held.1 held.2) >>= fun passes =>
        pure (ResourceReport.ofPasses passes)) := by
    have each : KeepsWorkspace invariant
        ((resourcesBelow root target excluded files).mapM fun held =>
          refreshResource hindrances held.1 held.2) :=
      Keeps.mapM fun held _ => keepsWorkspace_refreshResource made copied held.1 held.2
    exact each.bind fun held _ => held
  intro progress held
  rw [copyResources, after_bind, after_checkRoot]
  cases progress.workspace.isDirectory root with
  | false =>
      exact held
  | true =>
      rw [if_pos rfl]
      dsimp only
      rw [after_bind_of_ok (after_get progress), after_bind, after_ofReported]
      cases (progress.workspace.walk root (some target)).1 with
      | error failure =>
          exact held
      | ok files =>
          exact passes files _ held

include made copied in
/-- What making directories, copying a file and every command keep, filling the target keeps. -/
theorem keepsWorkspace_fillTarget (ran : RunnerKeeps tools.runner invariant) :
    KeepsWorkspace invariant (fillTarget tools plan) := by
  have prepared : KeepsWorkspace invariant (prepareTarget tools plan) :=
    (MakesTarget.of_keeps (made plan.target)).keepsWorkspace_prepareTarget ran
  have filled (compiled : Bool) : KeepsWorkspace invariant
      (plan.sources.roots.mapM (fun root =>
          copyResources tools.hindrances root plan.target plan.namespaces) >>= fun passes =>
        pure (compiled, passes)) := by
    have each : KeepsWorkspace invariant
        (plan.sources.roots.mapM fun root =>
          copyResources tools.hindrances root plan.target plan.namespaces) :=
      Keeps.mapM fun root _ => keepsWorkspace_copyResources made copied root _ _
    exact each.bind fun held _ => held
  rw [fillTarget_eq]
  exact prepared.bind fun held _ => filled _ _ held

end Copying

end ClojureBuild.Build
