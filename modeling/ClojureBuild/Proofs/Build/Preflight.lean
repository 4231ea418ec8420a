import ClojureBuild.Proofs.Build.Stepwise

/-!
# Failures before the first change

Making the plan and asking whether the batch is due only look, so a build that fails there has done
nothing.  What comes later fails for other reasons than an invalid name, a namespace with two sources
or a dependency that is not found.
-/

namespace ClojureBuild

namespace BuildError

/-- Whether a build fails because of what it was asked to compile, or against what. -/
def isPreflight : BuildError → Bool
  | .invalidNamespace _ => true
  | .duplicateNamespace _ _ _ => true
  | .unresolved _ => true
  | _ => false

end BuildError

namespace Build

variable {α β ε : Type} {build : Build α} {next : α → Build β} {reasons : BuildError → Prop}
variable {sources roots : List Path} {target root : Path} {dependencies : List Dependency}
variable {options : BuildOptions} {tools : Tools} {plan : Plan} {workspace : Workspace}
variable {failure : BuildError} {reason : FileFailure} {progress : Progress}

/-! ## Reasons to fail -/

/-- A build fails for certain reasons only. -/
def FailsOnly (reasons : BuildError → Prop) (build : Build α) : Prop :=
  ∀ progress failure, (build.after progress).1 = .error failure → reasons failure

namespace FailsOnly

theorem of_ok (value : Progress → α) (succeeds : ∀ progress,
    (build.after progress).1 = .ok (value progress)) : FailsOnly reasons build := by
  intro progress failure failed
  rw [succeeds] at failed
  cases failed

theorem pure (value : α) : FailsOnly reasons (pure value : Build α) :=
  of_ok (fun _ => value) fun _ => rfl

theorem get : FailsOnly reasons (get : Build Progress) :=
  of_ok id fun _ => rfl

theorem throw (isReason : reasons failure) : FailsOnly reasons (throw failure : Build α) := by
  intro progress other failed
  cases failed
  exact isReason

theorem bind
    (first : FailsOnly reasons build) (second : ∀ value, FailsOnly reasons (next value)) :
    FailsOnly reasons (build >>= next) := by
  intro progress failure failed
  rw [after_bind] at failed
  cases done : build.after progress with
  | mk outcome later =>
      rw [done] at failed
      cases outcome with
      | ok value =>
          exact second value later failure failed
      | error other =>
          cases failed
          exact first progress failure (by rw [done])

end FailsOnly

/-! ## What comes after the plan -/

/-- The build does not fail for a reason that is known before it changes anything. -/
abbrev FailsLate (build : Build α) : Prop :=
  FailsOnly (fun failure => failure.isPreflight = false) build

theorem failsLate_checkRoot (root : Path) : FailsLate (checkRoot root) := by
  refine FailsOnly.get.bind fun progress => ?_
  split
  · exact FailsOnly.pure ()
  · exact FailsOnly.throw rfl

theorem stepwise_failsLate : Stepwise FailsLate where
  pure := FailsOnly.pure
  bind := FailsOnly.bind
  look := fun each => FailsOnly.get.bind fun progress => each progress.workspace
  report _ := FailsOnly.of_ok (fun _ => ()) fun _ => rfl
  setWorkspace _ := FailsOnly.of_ok (fun _ => ()) fun _ => rfl
  ofFile result := by
    cases result with
    | ok value =>
        exact FailsOnly.pure value
    | error failure =>
        exact FailsOnly.throw rfl
  checkRoot := failsLate_checkRoot

theorem failsLate_runBatch (runner : Runner) (java : Path) (namespaces : List Namespace)
    (classpath : Classpath) (target : Path) :
    FailsLate (runBatch runner java namespaces classpath target) := by
  rw [runBatch]
  split
  · exact FailsOnly.pure ()
  · refine (stepwise_failsLate.makeDirectories target).bind fun _ => ?_
    have launched : FailsLate
        (runCommand runner (Batch.command java namespaces classpath target)) :=
      FailsOnly.of_ok _ fun progress => congrArg Prod.fst (after_runCommand runner _ progress)
    refine launched.bind fun outcome => ?_
    cases outcome with
    | error reason =>
        exact FailsOnly.throw rfl
    | ok output =>
        dsimp only
        split
        · exact FailsOnly.pure ()
        · exact FailsOnly.throw rfl

theorem failsLate_compileNamespaces (tools : Tools) (namespaces : List Namespace)
    (definitions : List Definition) (classpath : Classpath) (target : Path) :
    FailsLate (compileNamespaces tools namespaces definitions classpath target) := by
  refine FailsOnly.get.bind fun progress => ?_
  refine (stepwise_failsLate.ofSystem _).bind fun due => ?_
  split
  · exact (failsLate_runBatch _ _ _ _ _).bind fun _ => FailsOnly.pure _
  · exact FailsOnly.pure false

/-- Whatever the compilers do, a unit fails because of one of them. -/
theorem failsLate_compileUnit (compilers : Language → SecondaryCompiler) (unit : CompileUnit) :
    FailsLate (compileUnit compilers unit) := by
  intro progress failure failed
  have adapted :
      (compileUnit compilers unit).after progress =
        ((compilers unit.language unit progress).1.mapError .secondary,
          (compilers unit.language unit progress).2) :=
    rfl
  rw [adapted] at failed
  cases outcome : (compilers unit.language unit progress).1 with
  | ok value =>
      rw [outcome] at failed
      cases failed
  | error reason =>
      rw [outcome] at failed
      cases failed
      rfl

/-! ## Failures that leave everything as it was -/

/-- No command has been run and the workspace is what it was. -/
structure Untouched (workspace : Workspace) (progress : Progress) : Prop where
  commands : progress.commands = []
  workspace : progress.workspace = workspace

/-- The namespaces are looked for below the roots, and the walk over one of them fails after those
over the roots before it have succeeded. -/
structure DetectionFails (sources : List Path) (target : Path) (options : BuildOptions)
    (workspace : Workspace) (root : Path) (reason : FileFailure) : Prop where
  target : ∃ form, workspace.absolute target = .ok form
  detects : options.libs = none
  walks : ∃ split progress front rest,
    (gatherSources sources).on workspace = (.ok split, progress) ∧
      split.roots = front ++ root :: rest ∧
        (∀ earlier ∈ front, ∃ files, (workspace.walk earlier none).1 = .ok files) ∧
          (workspace.walk root none).1 = .error reason

theorem compile_of_readPlan_error
    (failed : readPlan tools sources target dependencies options workspace = .error failure) :
    ((compile tools sources target dependencies options).on workspace).1 = .error failure ∧
      Untouched workspace
        ((compile tools sources target dependencies options).on workspace).2 := by
  obtain ⟨notices, planning⟩ :=
    reads_makePlan tools sources target dependencies options (Progress.start workspace)
  have stopped :
      (makePlan tools sources target dependencies options).after (Progress.start workspace) =
        (.error failure, { Progress.start workspace with notices := notices }) := by
    rw [planning]
    exact Prod.ext failed rfl
  rw [on_eq_after, compile_eq, after_bind_of_error stopped]
  exact ⟨rfl, rfl, rfl⟩

/-- What a build fails for before it changes anything, its plan has failed for. -/
theorem readPlan_eq_error_of_isPreflight
    (failed :
      ((compile tools sources target dependencies options).on workspace).1 = .error failure)
    (early : failure.isPreflight = true) :
    readPlan tools sources target dependencies options workspace = .error failure := by
  obtain ⟨notices, planning⟩ :=
    reads_makePlan tools sources target dependencies options (Progress.start workspace)
  rw [on_eq_after, compile_eq, after_bind, planning] at failed
  cases planned : readPlan tools sources target dependencies options workspace with
  | error other =>
      simp only [Progress.start, planned] at failed
      cases failed
      rfl
  | ok plan =>
      simp only [Progress.start, planned] at failed
      -- nothing after the plan fails for such a reason
      have late : FailsLate
          (fillTarget tools plan >>= fun filled => finish tools options plan filled) :=
        (stepwise_failsLate.fillTarget (failsLate_compileNamespaces _ _ _ _ _)).bind
          (stepwise_failsLate.finish (failsLate_compileUnit _) options plan)
      rw [late _ failure failed] at early
      cases early

theorem readPlan_of_detectionFails
    (fails : DetectionFails sources target options workspace root reason) :
    readPlan tools sources target dependencies options workspace = .error (.file reason) := by
  obtain ⟨form, isForm⟩ := fails.target
  obtain ⟨split, progress, front, rest, gathered, roots, before, stopped⟩ := fails.walks
  obtain ⟨sorts, -, -⟩ := (reads_gatherSources sources).of_after_eq_ok gathered
  have sorted := sorted_of_foldlM sorts
  have directory : ∀ other ∈ split.roots, workspace.isDirectory other = true :=
    fun other member => (sorted.roots other member).1
  have detection :
      readNamespaces options split.roots workspace = .error (.file reason) := by
    have walked : (split.roots.mapM fun root => readBelow root workspace) =
        .error (.file reason) := by
      rw [roots] at directory ⊢
      refine mapM_eq_error_iff.2 ⟨front, root, rest, rfl, fun earlier member => ?_, ?_⟩
      · obtain ⟨files, found⟩ := before earlier member
        exact ⟨_, readBelow_eq_ok_iff.2
          ⟨directory earlier (List.mem_append_left _ member), files, found, rfl⟩⟩
      · dsimp only
        rw [readBelow, directory root (by simp), if_pos rfl, stopped]
        rfl
    rw [readNamespaces, fails.detects]
    simp only [readLibs, walked]
    rfl
  have sorts : sources.foldlM (sortSource workspace) ⟨[], []⟩ = .ok split := sorts
  rw [readPlan, isForm, sorts]
  simp only [Except.mapError, bind, Except.bind, detection]

theorem compile_of_isBatchDue_error
    {reason : SystemFailure} {progress : Progress}
    (planned : (makePlan tools sources target dependencies options).on workspace =
      (.ok plan, progress))
    (undecided : workspace.isBatchDue plan.target plan.definitions plan.namespaces =
      .error reason) :
    ((compile tools sources target dependencies options).on workspace).1 =
        .error (.file (.system reason)) ∧
      Untouched workspace
        ((compile tools sources target dependencies options).on workspace).2 := by
  have reads := reads_makePlan tools sources target dependencies options
  obtain ⟨-, sameWorkspace, sameCommands⟩ := reads.of_after_eq_ok planned
  have asked :
      (fillTarget tools plan).after progress = (.error (.file (.system reason)), progress) := by
    rw [fillTarget, compileNamespaces]
    refine after_bind_of_error ?_
    rw [after_bind_of_ok (after_get progress), sameWorkspace]
    refine after_bind_of_error ?_
    rw [show (Progress.start workspace).workspace = workspace from rfl, undecided]
    rfl
  rw [on_eq_after, compile_eq, after_bind_of_ok planned, after_bind_of_error asked]
  exact ⟨rfl, sameCommands, sameWorkspace⟩

/-- A build that fails for an invalid name, a namespace with two sources or a dependency that is not
found, in the walk that looks for namespaces or in the check of the artifacts has run no command and
changed nothing, whatever the tools do. -/
theorem early_failures_have_no_effect
    (tools : Tools) (sources : List Path) (target : Path) (dependencies : List Dependency)
    (options : BuildOptions) (workspace : Workspace) :
    let result := (compile tools sources target dependencies options).on workspace
    (∀ failure, result.1 = .error failure → failure.isPreflight = true →
        Untouched workspace result.2) ∧
      (∀ root reason, DetectionFails sources target options workspace root reason →
        result.1 = .error (.file reason) ∧ Untouched workspace result.2) ∧
      ∀ plan progress reason,
        (makePlan tools sources target dependencies options).on workspace = (.ok plan, progress) →
          workspace.isBatchDue plan.target plan.definitions plan.namespaces = .error reason →
            result.1 = .error (.file (.system reason)) ∧ Untouched workspace result.2 := by
  refine ⟨?_, ?_, ?_⟩
  · intro failure failed early
    exact (compile_of_readPlan_error (readPlan_eq_error_of_isPreflight failed early)).2
  · intro root reason fails
    exact compile_of_readPlan_error (readPlan_of_detectionFails fails)
  · intro plan progress reason planned undecided
    exact compile_of_isBatchDue_error planned undecided

end Build

end ClojureBuild
