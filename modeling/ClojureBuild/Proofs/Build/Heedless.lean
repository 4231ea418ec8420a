import ClojureBuild.Proofs.Build.Occasions

/-!
# Notices do not matter

A build writes notices and never looks at them.  So notices from earlier on stay in front of those
of the build, and change neither its outcome nor anything else that it does.
-/

namespace ClojureBuild

/-- The same progress after notices from earlier on. -/
def Progress.precededBy (earlier : List Notice) (progress : Progress) : Progress :=
  { progress with notices := earlier ++ progress.notices }

theorem Progress.precededBy_precededBy (first second : List Notice) (progress : Progress) :
    (progress.precededBy second).precededBy first = progress.precededBy (first ++ second) := by
  simp only [Progress.precededBy, List.append_assoc]

namespace Build

variable {α β ε : Type} {build : Build α} {next : α → Build β} {runner : Runner}

/-- A build takes no heed of the notices so far. -/
def Heedless (build : Build α) : Prop :=
  ∀ earlier progress,
    build.after (progress.precededBy earlier) =
      ((build.after progress).1, (build.after progress).2.precededBy earlier)

namespace Heedless

theorem pure (value : α) : Heedless (pure value : Build α) :=
  fun _ _ => rfl

theorem throw (failure : BuildError) : Heedless (throw failure : Build α) :=
  fun _ _ => rfl

theorem ofExcept (toError : ε → BuildError) (result : Except ε α) :
    Heedless (ofExcept toError result) := by
  intro earlier progress
  simp only [after_ofExcept]

theorem bind (first : Heedless build) (second : ∀ value, Heedless (next value)) :
    Heedless (build >>= next) := by
  intro earlier progress
  rw [after_bind, after_bind, first]
  cases build.after progress with
  | mk outcome later =>
      cases outcome with
      | ok value =>
          exact second value earlier later
      | error failure =>
          rfl

theorem look {ask : Workspace → Build α} (each : ∀ workspace, Heedless (ask workspace)) :
    Heedless (get >>= fun progress => ask progress.workspace) := by
  intro earlier progress
  rw [after_bind_of_ok (after_get progress), after_bind_of_ok (after_get _)]
  exact each progress.workspace earlier progress

theorem report (notices : List Notice) : Heedless (report notices) := by
  intro earlier progress
  simp only [after_report, Progress.precededBy, List.append_assoc]

theorem stepwise : Stepwise Heedless where
  pure := pure
  bind := bind
  look := look
  report := report
  setWorkspace _ := fun _ _ => rfl
  ofFile := ofExcept .file
  checkRoot root := by
    intro earlier progress
    rw [after_checkRoot, after_checkRoot]
    rfl

theorem absolute (path : Path) : Heedless (absolute path) :=
  look fun workspace => ofExcept .file (workspace.absolute path)

end Heedless

/-! ## Commands -/

theorem heedless_runCommand (runner : Runner) (command : Command) :
    Heedless (runCommand runner command) :=
  fun _ _ => rfl

theorem heedless_outcome (outcome : Except String CommandOutput)
    (notLaunched : String → BuildError) (failed : CommandOutput → BuildError) :
    Heedless
      (match outcome with
        | .error reason => throw (notLaunched reason)
        | .ok output => if output.succeeded then return () else throw (failed output)) := by
  cases outcome with
  | error reason =>
      exact Heedless.throw (notLaunched reason)
  | ok output =>
      dsimp only
      split
      · exact Heedless.pure ()
      · exact Heedless.throw (failed output)

theorem heedless_runSecondaryCommand (runner : Runner) (command : Command) :
    Heedless (runSecondaryCommand runner command) :=
  (heedless_runCommand runner command).bind fun outcome => heedless_outcome outcome _ _

/-- External compilers take no heed of notices. -/
theorem heedless_compilerPrograms (runner : Runner) (settings : CompileSettings)
    (unit : CompileUnit) : Heedless (compileUnit (compilerPrograms runner settings) unit) := by
  rw [compileUnit_eq]
  induction unit.commandsAs unit.language (settings.optionsFor unit.language) settings.javac with
  | nil =>
      exact Heedless.pure PUnit.unit
  | cons command rest inductionHypothesis =>
      exact (heedless_runSecondaryCommand runner command).bind fun _ => inductionHypothesis

theorem heedless_runBatch (runner : Runner) (java : Path) (namespaces : List Namespace)
    (classpath : Classpath) (target : Path) :
    Heedless (runBatch runner java namespaces classpath target) := by
  rw [runBatch]
  split
  · exact Heedless.pure ()
  · exact (Heedless.stepwise.makeDirectories target).bind fun _ =>
      (heedless_runCommand runner _).bind fun outcome => heedless_outcome outcome _ _

theorem heedless_compileNamespaces (tools : Tools) (namespaces : List Namespace)
    (definitions : List Definition) (classpath : Classpath) (target : Path) :
    Heedless (compileNamespaces tools namespaces definitions classpath target) := by
  have decided (workspace : Workspace) :
      Heedless (ofSystem (workspace.isBatchDue target definitions namespaces) >>= fun due =>
        if due then
          runBatch tools.runner tools.toolchain.java namespaces classpath target >>= fun _ =>
            pure !namespaces.isEmpty
        else pure false) := by
    apply Heedless.bind (Heedless.stepwise.ofSystem _)
    intro due
    split
    · exact (heedless_runBatch _ _ _ _ _).bind fun _ => Heedless.pure _
    · exact Heedless.pure false
  exact Heedless.look decided

/-! ## The steps of a plan -/

theorem heedless_namespacesBelow (root : Path) : Heedless (namespacesBelow root) := by
  have walked (workspace : Workspace) :
      Heedless (ofReported (workspace.walk root none) >>= fun files =>
        report ((unmapped root files).map .unmappedSource) >>= fun _ =>
          pure (files.filterMap (namespaceOf? root))) := by
    apply Heedless.bind (Heedless.stepwise.ofReported _)
    intro files
    exact (Heedless.report _).bind fun _ => Heedless.pure _
  have looked := Heedless.look walked
  exact (Heedless.stepwise.checkRoot root).bind fun _ => looked

theorem heedless_namespacesOfRoots (roots : List Path) : Heedless (namespacesOfRoots roots) :=
  (Heedless.stepwise.mapM heedless_namespacesBelow roots).bind fun namespaces =>
    Heedless.pure namespaces.flatten

theorem heedless_searchOrder (resolver : Resolver) (dependencies : List Dependency)
    (roots : List Path) (runtime : Path) :
    Heedless (searchOrder resolver dependencies roots runtime) := by
  have resolving (dependency : Dependency) :=
    Heedless.look fun workspace => Heedless.ofExcept .unresolved (resolver workspace dependency)
  have ordered (resolved : List Path) :=
    (Heedless.stepwise.mapM Heedless.absolute roots).bind fun absoluteRoots =>
      (Heedless.absolute runtime).bind fun last =>
        Heedless.pure ((Classpath.ofList (resolved ++ absoluteRoots)).endingIn last)
  exact (Heedless.stepwise.mapM resolving dependencies).bind ordered

end Build

end ClojureBuild
