import ClojureBuild.Build.Resources
import ClojureBuild.Proofs.Build.Results

/-!
# Steps of a build

What a build does after some progress, operation by operation.  A step that succeeds hands its value
and the progress to the next one; a step that fails ends the build with the progress so far.
-/

namespace ClojureBuild.Build

variable {α β ε : Type} {build : Build α} {next : α → Build β}
variable {progress later : Progress} {failure : BuildError} {hindrances : Hindrances}

/-- Carry on with a build after some progress. -/
def after (build : Build α) (progress : Progress) : Except BuildError α × Progress :=
  build.run.run progress

theorem on_eq_after (build : Build α) (workspace : Workspace) :
    build.on workspace = build.after (Progress.start workspace) :=
  rfl

/-- Builds that do the same after any progress are the same. -/
theorem eq_of_after_eq {other : Build α}
    (same : ∀ progress, build.after progress = other.after progress) : build = other :=
  funext same

/-! ## Sequences of steps -/

@[simp]
theorem after_pure (value : α) (progress : Progress) :
    (pure value : Build α).after progress = (.ok value, progress) :=
  rfl

@[simp]
theorem after_throw (failure : BuildError) (progress : Progress) :
    (throw failure : Build α).after progress = (.error failure, progress) :=
  rfl

@[simp]
theorem after_get (progress : Progress) :
    (get : Build Progress).after progress = (.ok progress, progress) :=
  rfl

@[simp]
theorem after_set (replacement progress : Progress) :
    (set replacement : Build PUnit).after progress = (.ok ⟨⟩, replacement) :=
  rfl

@[simp]
theorem after_modify (change : Progress → Progress) (progress : Progress) :
    (modify change : Build PUnit).after progress = (.ok ⟨⟩, change progress) :=
  rfl

theorem after_bind (build : Build α) (next : α → Build β) (progress : Progress) :
    (build >>= next).after progress =
      match build.after progress with
      | (.ok value, later) => (next value).after later
      | (.error failure, later) => (.error failure, later) := by
  have step :
      (build >>= next).after progress =
        (ExceptT.bindCont next (build.after progress).1).run (build.after progress).2 :=
    rfl
  rw [step]
  cases build.after progress with
  | mk outcome later =>
      cases outcome with
      | ok value =>
          rfl
      | error failure =>
          rfl

theorem after_bind_of_ok
    {value : α} (done : build.after progress = (.ok value, later)) :
    (build >>= next).after progress = (next value).after later := by
  rw [after_bind, done]

theorem after_bind_of_error (failed : build.after progress = (.error failure, later)) :
    (build >>= next).after progress = (.error failure, later) := by
  rw [after_bind, failed]

/-- A sequence of two steps succeeds when both do. -/
theorem after_bind_eq_ok_iff {result : β} {final : Progress} :
    (build >>= next).after progress = (.ok result, final) ↔
      ∃ value later,
        build.after progress = (.ok value, later) ∧
          (next value).after later = (.ok result, final) := by
  rw [after_bind]
  cases done : build.after progress with
  | mk outcome later =>
      cases outcome with
      | ok value =>
          simp [and_assoc]
      | error failure =>
          simp

@[simp]
theorem after_mapM_nil (step : α → Build β) (progress : Progress) :
    (([] : List α).mapM step).after progress = (.ok [], progress) :=
  rfl

/-- A step for every item succeeds when the first one does and then all the others. -/
theorem after_mapM_cons_eq_ok_iff
    {step : α → Build β} {item : α} {items : List α} {results : List β} :
    ((item :: items).mapM step).after progress = (.ok results, later) ↔
      ∃ first middle others,
        (step item).after progress = (.ok first, middle) ∧
          (items.mapM step).after middle = (.ok others, later) ∧ results = first :: others := by
  rw [List.mapM_cons, after_bind_eq_ok_iff]
  simp only [after_bind_eq_ok_iff, after_pure, Prod.mk.injEq, Except.ok.injEq]
  constructor
  · rintro ⟨first, middle, done, others, final, rest, rfl, rfl⟩
    exact ⟨first, middle, others, done, rest, rfl⟩
  · rintro ⟨first, middle, others, done, rest, rfl⟩
    exact ⟨first, middle, done, others, later, rest, rfl, rfl⟩

/-! ## Single steps -/

@[simp]
theorem after_ofExcept_ok (toError : ε → BuildError) (value : α) (progress : Progress) :
    (ofExcept toError (.ok value)).after progress = (.ok value, progress) :=
  rfl

@[simp]
theorem after_ofExcept_error (toError : ε → BuildError) (reason : ε) (progress : Progress) :
    (ofExcept toError (.error reason) : Build α).after progress =
      (.error (toError reason), progress) :=
  rfl

theorem after_ofExcept (toError : ε → BuildError) (result : Except ε α) (progress : Progress) :
    (ofExcept toError result).after progress = (result.mapError toError, progress) := by
  cases result with
  | ok value =>
      rfl
  | error reason =>
      rfl

@[simp]
theorem after_report (notices : List Notice) (progress : Progress) :
    (report notices).after progress =
      (.ok (), { progress with notices := progress.notices ++ notices }) :=
  rfl

theorem after_ofReported
    (reported : Except FileFailure α × List Notice) (progress : Progress) :
    (ofReported reported).after progress =
      (reported.1.mapError .file,
        { progress with notices := progress.notices ++ reported.2 }) := by
  rw [ofReported, after_bind_of_ok (after_report reported.2 progress), ofFile, after_ofExcept]

@[simp]
theorem after_setWorkspace (workspace : Workspace) (progress : Progress) :
    (setWorkspace workspace).after progress =
      (.ok (), { progress with workspace := workspace }) :=
  rfl

theorem after_absolute (path : Path) (progress : Progress) :
    (absolute path).after progress =
      ((progress.workspace.absolute path).mapError .file, progress) := by
  rw [absolute, after_bind_of_ok (after_get progress), ofFile, after_ofExcept]

theorem after_makeDirectories (path : Path) (progress : Progress) :
    (makeDirectories path).after progress =
      ((progress.workspace.makeDirectories path).1.mapError
          (fun failure => .file (.system failure)),
        { progress with workspace := (progress.workspace.makeDirectories path).2 }) := by
  rw [makeDirectories, after_bind_of_ok (after_get progress),
    after_bind_of_ok (after_setWorkspace _ progress), ofSystem, after_ofExcept]

theorem after_copyFile (source destination : Path) (progress : Progress) :
    (copyFile hindrances source destination).after progress =
      ((progress.workspace.copy hindrances source destination).1.mapError .file,
        { progress with workspace := (progress.workspace.copy hindrances source destination).2 }) := by
  rw [copyFile, after_bind_of_ok (after_get progress)]
  dsimp only
  rw [after_bind_of_ok (after_setWorkspace _ progress), ofFile, after_ofExcept]

theorem after_runCommand (runner : Runner) (command : Command) (progress : Progress) :
    (runCommand runner command).after progress =
      (.ok (runner.run progress.commands command progress.workspace).1,
        { progress with
          workspace := (runner.run progress.commands command progress.workspace).2
          commands := progress.commands ++ [command] }) :=
  rfl

/-! ## Invariants -/

/-- A build keeps an invariant, whether it succeeds or fails. -/
def Keeps (invariant : Progress → Prop) (build : Build α) : Prop :=
  ∀ progress, invariant progress → invariant (build.after progress).2

namespace Keeps

variable {invariant : Progress → Prop}

theorem of_same (same : ∀ progress, (build.after progress).2 = progress) :
    Keeps invariant build := by
  intro progress held
  rwa [same]

theorem pure (value : α) : Keeps invariant (pure value : Build α) :=
  of_same fun progress => by rw [after_pure]

theorem throw (failure : BuildError) : Keeps invariant (throw failure : Build α) :=
  of_same fun progress => by rw [after_throw]

theorem ofExcept (toError : ε → BuildError) (result : Except ε α) :
    Keeps invariant (ofExcept toError result) :=
  of_same fun progress => by rw [after_ofExcept]

theorem absolute (path : Path) : Keeps invariant (absolute path) :=
  of_same fun progress => by rw [after_absolute]

/-- What the second step of a sequence starts from. -/
theorem bind
    (first : Keeps invariant build)
    (second : ∀ {value progress later}, invariant later →
      build.after progress = (.ok value, later) → invariant ((next value).after later).2) :
    Keeps invariant (build >>= next) := by
  intro progress held
  have kept := first progress held
  rw [after_bind]
  cases done : build.after progress with
  | mk outcome later =>
      rw [done] at kept
      cases outcome with
      | error failure =>
          exact kept
      | ok value =>
          exact second kept done

/-- A step for every item keeps what the step for each item keeps. -/
theorem mapM
    {step : α → Build β} {items : List α} (each : ∀ item ∈ items, Keeps invariant (step item)) :
    Keeps invariant (items.mapM step) := by
  induction items with
  | nil =>
      exact of_same fun progress => by rw [after_mapM_nil]
  | cons item rest inductionHypothesis =>
      rw [List.mapM_cons]
      refine (each item List.mem_cons_self).bind fun held _ => ?_
      refine Keeps.bind (inductionHypothesis fun other member =>
        each other (List.mem_cons_of_mem item member)) (fun held _ => ?_) _ held
      exact Keeps.pure _ _ held

end Keeps

/-- What the step for an item achieves, and no other step undoes, holds after all steps. -/
theorem achieved_of_after_mapM
    {invariant achieved : Progress → Prop} {step : α → Build β} {items : List α} {item : α}
    {results : List β} (member : item ∈ items)
    (keeps : ∀ other ∈ items, Keeps invariant (step other))
    (achieves : ∀ {result reached next}, invariant reached →
      (step item).after reached = (.ok result, next) → achieved next)
    (stays : ∀ other ∈ items, Keeps achieved (step other))
    (held : invariant progress)
    (done : (items.mapM step).after progress = (.ok results, later)) : achieved later := by
  induction items generalizing progress results with
  | nil =>
      cases member
  | cons head rest inductionHypothesis =>
      obtain ⟨first, middle, others, one, behind, -⟩ := after_mapM_cons_eq_ok_iff.1 done
      rcases List.mem_cons.1 member with rfl | inRest
      · have kept :=
          Keeps.mapM (fun other inRest => stays other (List.mem_cons_of_mem item inRest)) middle
            (achieves held one)
        rwa [behind] at kept
      · have heldLater := keeps head List.mem_cons_self progress held
        rw [one] at heldLater
        exact inductionHypothesis inRest
          (fun other inOthers => keeps other (List.mem_cons_of_mem head inOthers))
          (fun other inOthers => stays other (List.mem_cons_of_mem head inOthers)) heldLater behind

/-! ## Looking only -/

/-- A build only looks: its outcome is read off the workspace, and nothing but notices is added. -/
def Reads (build : Build α) (outcome : Workspace → Except BuildError α) : Prop :=
  ∀ progress, ∃ notices,
    build.after progress = (outcome progress.workspace, { progress with notices := notices })

namespace Reads

variable {outcome : Workspace → Except BuildError α}

theorem pure (value : α) : Reads (pure value : Build α) fun _ => .ok value :=
  fun progress => ⟨progress.notices, rfl⟩

theorem throw (failure : BuildError) : Reads (throw failure : Build α) fun _ => .error failure :=
  fun progress => ⟨progress.notices, rfl⟩

theorem ofExcept (toError : ε → BuildError) (result : Except ε α) :
    Reads (ofExcept toError result) fun _ => result.mapError toError :=
  fun progress => ⟨progress.notices, after_ofExcept toError result progress⟩

theorem report (notices : List Notice) : Reads (report notices) fun _ => .ok () :=
  fun progress => ⟨progress.notices ++ notices, rfl⟩

theorem ofReported (reported : Except FileFailure α × List Notice) :
    Reads (ofReported reported) fun _ => reported.1.mapError .file :=
  fun progress => ⟨progress.notices ++ reported.2, after_ofReported reported progress⟩

theorem absolute (path : Path) :
    Reads (absolute path) fun workspace => (workspace.absolute path).mapError .file :=
  fun progress => ⟨progress.notices, after_absolute path progress⟩

theorem bind
    {following : α → Workspace → Except BuildError β}
    (first : Reads build outcome) (second : ∀ value, Reads (next value) (following value)) :
    Reads (build >>= next) fun workspace =>
      outcome workspace >>= fun value => following value workspace := by
  intro progress
  obtain ⟨notices, done⟩ := first progress
  cases answer : outcome progress.workspace with
  | error failure =>
      rw [answer] at done
      refine ⟨notices, ?_⟩
      simp only [after_bind_of_error done, answer]
      rfl
  | ok value =>
      rw [answer] at done
      obtain ⟨more, last⟩ := second value { progress with notices := notices }
      refine ⟨more, ?_⟩
      simp only [after_bind_of_ok done, answer, last]
      rfl

/-- Asking the workspace first. -/
theorem look
    {ask : Workspace → Build α} {answers : Workspace → Workspace → Except BuildError α}
    (each : ∀ workspace, Reads (ask workspace) (answers workspace)) :
    Reads (get >>= fun progress => ask progress.workspace) fun workspace =>
      answers workspace workspace := by
  intro progress
  rw [after_bind_of_ok (after_get progress)]
  exact each progress.workspace progress

theorem mapM
    {step : α → Build β} {answer : α → Workspace → Except BuildError β}
    (each : ∀ item, Reads (step item) (answer item)) (items : List α) :
    Reads (items.mapM step) fun workspace => items.mapM fun item => answer item workspace := by
  induction items with
  | nil =>
      exact fun progress => ⟨progress.notices, rfl⟩
  | cons item rest inductionHypothesis =>
      simp only [List.mapM_cons]
      exact (each item).bind fun first => inductionHypothesis.bind fun others =>
        Reads.pure (first :: others)

theorem foldlM
    {step : β → α → Build β} {answer : β → α → Workspace → Except BuildError β}
    (each : ∀ state item, Reads (step state item) (answer state item)) (items : List α)
    (start : β) :
    Reads (items.foldlM step start) fun workspace =>
      items.foldlM (fun state item => answer state item workspace) start := by
  induction items generalizing start with
  | nil =>
      exact fun progress => ⟨progress.notices, rfl⟩
  | cons item rest inductionHypothesis =>
      simp only [List.foldlM_cons]
      exact (each start item).bind inductionHypothesis

/-- What a build that only looks has left when it succeeds. -/
theorem of_after_eq_ok
    {value : α} (reads : Reads build outcome) (done : build.after progress = (.ok value, later)) :
    outcome progress.workspace = .ok value ∧ later.workspace = progress.workspace ∧
      later.commands = progress.commands := by
  obtain ⟨notices, same⟩ := reads progress
  rw [done] at same
  obtain ⟨answer, rfl⟩ := Prod.mk.inj same
  exact ⟨answer.symm, rfl, rfl⟩

theorem after_of_ok
    {value : α} (reads : Reads build outcome) (answer : outcome progress.workspace = .ok value) :
    ∃ notices, build.after progress = (.ok value, { progress with notices := notices }) := by
  obtain ⟨notices, same⟩ := reads progress
  exact ⟨notices, by rw [same, answer]⟩

/-- An invariant of the workspace and the commands is kept by looking. -/
theorem keeps
    {invariant : Progress → Prop} (reads : Reads build outcome)
    (unaffected : ∀ progress notices,
      invariant progress → invariant { progress with notices := notices }) :
    Keeps invariant build := by
  intro progress held
  obtain ⟨notices, same⟩ := reads progress
  rw [same]
  exact unaffected progress notices held

end Reads

end ClojureBuild.Build
