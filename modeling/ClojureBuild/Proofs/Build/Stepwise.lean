import ClojureBuild.Proofs.Build.Plan

/-!
# Properties of all steps

What holds of single steps and of a sequence whenever it holds of its members holds of the whole of
what a build does after the batch.
-/

namespace ClojureBuild.Build

/-- A property of the steps that look or change files, which sequences of steps inherit. -/
structure Stepwise (holds : ∀ {α : Type}, Build α → Prop) : Prop where
  pure : ∀ {α : Type} (value : α), holds (pure value : Build α)
  bind : ∀ {α β : Type} {build : Build α} {next : α → Build β},
    holds build → (∀ value, holds (next value)) → holds (build >>= next)
  look : ∀ {α : Type} {ask : Workspace → Build α},
    (∀ workspace, holds (ask workspace)) → holds (get >>= fun progress => ask progress.workspace)
  report : ∀ notices, holds (report notices)
  setWorkspace : ∀ workspace, holds (setWorkspace workspace)
  ofFile : ∀ {α : Type} (result : Except FileFailure α), holds (ofFile result)
  checkRoot : ∀ root, holds (checkRoot root)

namespace Stepwise

variable {holds : ∀ {α : Type}, Build α → Prop} {α β : Type}

theorem mapM
    (stepwise : Stepwise holds) {step : α → Build β} (each : ∀ item, holds (step item))
    (items : List α) : holds (items.mapM step) := by
  induction items with
  | nil =>
      exact stepwise.pure []
  | cons item rest inductionHypothesis =>
      rw [List.mapM_cons]
      exact stepwise.bind (each item) fun first => stepwise.bind inductionHypothesis fun others =>
        stepwise.pure (first :: others)

theorem ofSystem (stepwise : Stepwise holds) (result : Except SystemFailure α) :
    holds (ofSystem result) := by
  have isFile : Build.ofSystem result = Build.ofFile (result.mapError .system) := by
    cases result <;> rfl
  rw [isFile]
  exact stepwise.ofFile _

theorem ofReported
    (stepwise : Stepwise holds) (reported : Except FileFailure α × List Notice) :
    holds (ofReported reported) :=
  stepwise.bind (stepwise.report reported.2) fun _ => stepwise.ofFile reported.1

theorem makeDirectories (stepwise : Stepwise holds) (path : Path) :
    holds (makeDirectories path) :=
  stepwise.look fun workspace =>
    stepwise.bind (stepwise.setWorkspace (workspace.makeDirectories path).2) fun _ =>
      stepwise.ofSystem (workspace.makeDirectories path).1

/-! ## Copying -/

theorem copyInto (stepwise : Stepwise holds) (hindrances : Hindrances)
    (source destination : Path) : holds (copyInto hindrances source destination) := by
  have parents : holds (destination.parent?.forM Build.makeDirectories) := by
    cases destination.parent? with
    | none =>
        exact stepwise.pure PUnit.unit
    | some parent =>
        exact stepwise.makeDirectories parent
  have copied (workspace : Workspace) :=
    stepwise.bind (stepwise.setWorkspace (workspace.copy hindrances source destination).2) fun _ =>
      stepwise.ofFile (workspace.copy hindrances source destination).1
  exact stepwise.bind parents fun _ => stepwise.look copied

theorem refreshResource (stepwise : Stepwise holds) (hindrances : Hindrances)
    (destination source : Path) :
    holds (refreshResource hindrances destination source) := by
  have refreshed (workspace : Workspace) :
      holds (Build.ofSystem (workspace.isFresh destination source) >>= fun fresh =>
        if fresh then Pure.pure ⟨[], [destination]⟩
        else Build.copyInto hindrances source destination >>= fun _ =>
          (Pure.pure ⟨[destination], []⟩ : Build ResourceReport)) := by
    refine stepwise.bind (stepwise.ofSystem _) fun fresh => ?_
    split
    · exact stepwise.pure _
    · exact stepwise.bind (stepwise.copyInto hindrances source destination) fun _ => stepwise.pure _
  exact stepwise.look refreshed

theorem copyResources (stepwise : Stepwise holds) (hindrances : Hindrances) (root target : Path)
    (excluded : List Namespace) : holds (copyResources hindrances root target excluded) := by
  have passes (files : List Path) :=
    stepwise.mapM (fun held : Path × Path => stepwise.refreshResource hindrances held.1 held.2)
      (resourcesBelow root target excluded files)
  have walked (workspace : Workspace) :=
    stepwise.bind (stepwise.ofReported (workspace.walk root (some target))) fun files =>
      stepwise.bind (passes files) fun reports => stepwise.pure (ResourceReport.ofPasses reports)
  exact stepwise.bind (stepwise.checkRoot root) fun _ => stepwise.look walked

theorem fillTarget
    (stepwise : Stepwise holds) {tools : Tools} {plan : Plan}
    (compiled : holds (compileNamespaces tools plan.namespaces plan.definitions plan.classpath
      plan.target)) : holds (fillTarget tools plan) := by
  refine stepwise.bind compiled fun _ =>
    stepwise.bind (stepwise.makeDirectories plan.target) fun _ => ?_
  refine stepwise.bind (stepwise.mapM (fun root => ?_) _) fun _ => stepwise.pure _
  exact stepwise.copyResources _ root plan.target plan.namespaces

/-! ## Delegation -/

theorem delegateRest
    (stepwise : Stepwise holds) {compilers : Language → SecondaryCompiler}
    (units : ∀ unit, holds (compileUnit compilers unit)) (classpath : Classpath) (target : Path)
    (shares : List Share) : holds (delegateRest compilers classpath target shares) := by
  induction shares with
  | nil =>
      exact stepwise.pure ()
  | cons share others inductionHypothesis =>
      exact stepwise.bind (units _) fun _ => inductionHypothesis

theorem delegate
    (stepwise : Stepwise holds) {compilers : Language → SecondaryCompiler}
    (units : ∀ unit, holds (compileUnit compilers unit)) (classpath : Classpath) (target : Path)
    (shares : List Share) : holds (delegate compilers classpath target shares) := by
  cases shares with
  | nil =>
      exact stepwise.pure ()
  | cons share others =>
      exact stepwise.bind (units _) fun _ =>
        stepwise.delegateRest units classpath target others

theorem finish
    (stepwise : Stepwise holds) {tools : Tools}
    (units : ∀ unit, holds (compileUnit tools.compilers unit)) (options : BuildOptions)
    (plan : Plan) (filled : Bool × List ResourceReport) :
    holds (finish tools options plan filled) := by
  have listed (workspace : Workspace) :=
    stepwise.bind
      (stepwise.ofReported (workspace.distinctFiles (plan.sources.roots ++ plan.sources.files)))
      fun files => stepwise.bind
        (stepwise.delegate units plan.classpath plan.target (options.policy.shares files))
        fun _ => stepwise.pure (reportOf plan filled (options.policy.shares files))
  exact stepwise.look listed

end Stepwise

end ClojureBuild.Build
