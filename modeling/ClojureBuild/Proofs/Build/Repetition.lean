import ClojureBuild.Proofs.Build.History
import ClojureBuild.Proofs.Build.Replanning
import ClojureBuild.Proofs.Build.UpToDate

/-!
# Repeated builds

A build that succeeds leaves nothing to do: the batch has written the artifacts and the passes have
written the copies, none of them older than its source.  So the same build again runs no command,
copies nothing and leaves the workspace as it is.
-/

namespace ClojureBuild

open Workspace

namespace Build

variable {project : Project} {tools : Tools} {dependencies : List Dependency} {plan : Plan}
variable {start before after workspace : Workspace} {progress later : Progress} {root : Path}
variable {names : List String} {content : List UInt8} {modified : Instant} {mode : Nat}
variable {hindrances : Hindrances}

/-! ## Before the target is filled -/

/-- The batch, when it succeeds, has written the artifacts of all its namespaces and nothing else but
what lies below the target. -/
structure Compiled (target : Path) (namespaces : List Namespace) (before after : Workspace) : Prop
    extends Filled (placeOf target) before after where
  artifacts : ∀ defined ∈ namespaces,
    after.NotOlder (placeOf target ++ defined.artifactNames) before.clock

/-- Whenever a batch for a target succeeds it writes the artifacts. -/
def CompilesBatches (runner : Runner) (java target : Path) : Prop :=
  ∀ earlier namespaces classpath before output after,
    before.tree.Plain → before.LeadsToDirectory target (placeOf target) →
      runner.run earlier (Batch.command java namespaces classpath target) before =
          (.ok output, after) →
        output.succeeded = true → Compiled target namespaces before after

/-- No file below a root is of the future. -/
def Past (project : Project) (workspace : Workspace) : Prop :=
  ∀ root, IsRoot project workspace root → ∀ names content modified mode,
    workspace.tree.find? (placeOf root ++ names) = some (.file content modified mode) →
      modified.nanoseconds ≤ workspace.clock.nanoseconds

theorem past_of_entries
    (entries : ∀ held ∈ workspace.tree.entries,
      held.2.modified.nanoseconds ≤ workspace.clock.nanoseconds) : Past project workspace := by
  intro root _ names content modified mode found
  exact entries _ (FileTree.mem_entries_of_find? found)

/-- No file that the sources list is written in a secondary language. -/
def Unowned (project : Project) (workspace : Workspace) : Prop :=
  ∀ source ∈ project.sources, ∀ path, workspace.absolute source = .ok path →
    ∀ file ∈ workspace.listedFiles path, ∀ language : Language, language.owns file = false

theorem unowned_of_listedFiles
    (unowned : ∀ source ∈ project.sources,
      ∀ file ∈ workspace.listedFiles (Project.anchor workspace.current source),
        ∀ language ∈ Language.byPriority, language.owns file = false) :
    Unowned project workspace := by
  intro source listed path form file member language
  rw [← anchor_of_absolute form] at member
  apply unowned source listed file member language
  cases language with
  | scala => decide
  | groovy => decide
  | java => decide

/-- A plan that was made for a project whose sources are apart from the target. -/
structure Begun (project : Project) (start : Workspace) (plan : Plan) : Prop where
  plain : start.tree.Plain
  absolute : plan.target.isAbsolute = true
  target : plan.target = Project.anchor start.current project.target
  roots : ∀ root ∈ plan.sources.roots, KnownRoot (project.layout start.current) start root
  files : ∀ file ∈ plan.sources.files,
    file.isAbsolute = true ∧ start.isFile file = true ∧
      (project.layout start.current).Root (placeOf file)
  past : ∀ root ∈ plan.sources.roots, ∀ names content modified mode,
    start.tree.find? (placeOf root ++ names) = some (.file content modified mode) →
      modified.nanoseconds ≤ start.clock.nanoseconds
  definitions : ∀ definition ∈ plan.definitions,
    definition.defined ∈ plan.namespaces ∧ ∃ root ∈ plan.sources.roots,
      definition.source = root.below definition.defined.sourceNames ∧
        start.tree.HoldsFile (placeOf root ++ definition.defined.sourceNames)
  unowned : ∀ source ∈ plan.sources.roots ++ plan.sources.files,
    ∀ file ∈ start.listedFiles source, ∀ language : Language, language.owns file = false

theorem begun_of_readPlan
    (plain : start.tree.Plain) (disjoint : Disjoint project start.current)
    (past : Past project start) (unowned : Unowned project start)
    (planned : readPlan tools project.sources project.target dependencies project.options start =
      .ok plan) :
    Begun project start plan := by
  rcases readPlan_eq_ok_iff.1 planned with ⟨form, splits, -, defined, -⟩
  have sorted := sorted_of_foldlM splits
  have apart {source path : Path} (listed : source ∈ project.sources)
      (pathForm : start.absolute source = .ok path) :
      (project.layout start.current).Root (placeOf path) := by
    have isRoot := disjoint source listed
    rwa [anchor_of_absolute pathForm] at isRoot
  have known : ∀ root ∈ plan.sources.roots,
      KnownRoot (project.layout start.current) start root := by
    intro root member
    rcases sorted.roots root member with ⟨directory, source, listed, rootForm⟩
    exact knownRoot plain (isAbsolute_of_absolute rootForm) directory (apart listed rootForm)
  refine
    { plain := plain
      absolute := isAbsolute_of_absolute form
      target := (anchor_of_absolute form).symm
      roots := known
      files := ?_
      past := ?_
      definitions := ?_
      unowned := ?_ }
  · intro file member
    rcases sorted.files file member with ⟨isFile, source, listed, fileForm⟩
    exact ⟨isAbsolute_of_absolute fileForm, isFile, apart listed fileForm⟩
  · intro root member
    rcases sorted.roots root member with ⟨directory, source, listed, rootForm⟩
    exact past root ⟨⟨source, listed, rootForm⟩, directory⟩
  · intro definition member
    rcases definitionsOf_eq_ok_iff.1 defined with ⟨-, same⟩
    rw [same] at member
    rcases List.mem_flatMap.1 member with ⟨wanted, inNamespaces, inSources⟩
    rcases mem_sourcesOf_iff.1 inSources with ⟨rfl, inRoots, source, file⟩
    have isRoot := known definition.root inRoots
    rw [Namespace.join_sourcePath] at source file
    refine ⟨inNamespaces, definition.root, inRoots, source, ?_⟩
    exact (isFile_below_iff plain isRoot.leads
      definition.defined.plainName_of_mem_sourceNames).1 file
  · intro source member
    rcases List.mem_append.1 member with inRoots | inFiles
    · rcases sorted.roots source inRoots with ⟨-, given, listed, sourceForm⟩
      exact unowned given listed source sourceForm
    · rcases sorted.files source inFiles with ⟨-, given, listed, sourceForm⟩
      exact unowned given listed source sourceForm

/-! ## On the way -/

namespace Onward

theorem refl (plain : start.tree.Plain) (project : Project) : Onward project start start where
  toAdvanced := Advanced.refl plain
  sameFiles := Layout.SameFiles.refl _ _
  places := fun _ => Or.inl

theorem advance
    (onward : Onward project start before) (advanced : Advanced before after)
    (same : (project.layout start.current).SameFiles before.tree after.tree)
    (places : ∀ location, after.tree.find? location ≠ none →
      before.tree.find? location ≠ none ∨
        OnTheWay (Project.anchor start.current project.target) location ∨
          (project.layout start.current).target <+: location) :
    Onward project start after where
  toAdvanced := onward.toAdvanced.trans advanced
  sameFiles := onward.sameFiles.trans same
  places := by
    intro location held
    rcases places location held with earlier | isNew
    · exact onward.places location earlier
    · exact Or.inr isNew

theorem of_filled
    (onward : Onward project start before)
    (filled : Filled (project.layout start.current).target before after) :
    Onward project start after := by
  refine onward.advance filled.toAdvanced filled.sameFiles ?_
  intro location held
  by_cases inside : (project.layout start.current).target <+: location
  · exact Or.inr (Or.inr inside)
  · left
    have elsewhere := filled.outside location fun names same =>
      inside (same ▸ List.prefix_append _ names)
    rwa [← elsewhere]

theorem of_onlyMade
    (onward : Onward project start before)
    (only : OnlyMade (OnTheWay (Project.anchor start.current project.target)) before after) :
    Onward project start after := by
  refine onward.advance only.advanced (only.sameFiles _) ?_
  intro location held
  by_cases earlier : before.tree.find? location = none
  · rcases Option.ne_none_iff_exists'.1 held with ⟨entry, found⟩
    exact Or.inr (Or.inl (only.made earlier found).1)
  · exact Or.inl earlier

end Onward

namespace Begun

theorem place (begun : Begun project start plan) :
    placeOf plan.target = (project.layout start.current).target := by
  rw [begun.target, Project.layout]

theorem onward_of_filled
    (begun : Begun project start plan) (onward : Onward project start before)
    (filled : Filled (placeOf plan.target) before after) : Onward project start after := by
  rw [begun.place] at filled
  exact onward.of_filled filled

theorem onward_of_onlyMade
    (begun : Begun project start plan) (onward : Onward project start before)
    (only : OnlyMade (OnTheWay plan.target) before after) : Onward project start after := by
  rw [begun.target] at only
  exact onward.of_onlyMade only

/-- A source of a namespace stays as it is. -/
theorem status_source
    (begun : Begun project start plan) (onward : Onward project start workspace)
    {definition : Definition} (member : definition ∈ plan.definitions) :
    ∃ location content modified mode,
      workspace.status definition.source = .ok (location, .file content modified mode) ∧
        modified.nanoseconds ≤ start.clock.nanoseconds ∧
          ∀ other : Workspace, Onward project start other →
            other.tree.find? location = some (.file content modified mode) := by
  rcases begun.definitions definition member with ⟨-, root, inRoots, source, file⟩
  rcases file with ⟨content, modified, mode, found⟩
  have known := begun.roots root inRoots
  have stays {other : Workspace} (otherOnward : Onward project start other) :=
    (otherOnward.sameFiles _ known.apart _ content modified mode).2 found
  refine ⟨_, content, modified, mode, ?_, begun.past root inRoots _ _ _ _ found, fun other => stays⟩
  rw [source]
  exact (status_below_iff onward.plain (onward.leadsToDirectory begun.plain known.leads)
    definition.defined.plainName_of_mem_sourceNames).2 ⟨rfl, stays onward⟩

theorem sourcesKept
    (begun : Begun project start plan) (onward : Onward project start before)
    (later : Onward project start after) : SourcesKept before after plan.definitions := by
  intro definition member
  rcases begun.status_source onward member with
    ⟨location, content, modified, mode, found, past, stays⟩
  exact ⟨location, content, modified, mode, found, Int.le_trans past onward.clock,
    stays after later⟩

/-- After the batch has been run all artifacts are up to date. -/
theorem artifacts_of_compiled
    (begun : Begun project start plan) (onward : Onward project start before)
    (leads : before.LeadsToDirectory plan.target (placeOf plan.target))
    (compiled : Compiled plan.target plan.namespaces before after) :
    after.ArtifactsUpToDate plan.target plan.definitions plan.namespaces := by
  have later := begun.onward_of_filled onward compiled.toFilled
  have leadsLater := compiled.leadsToDirectory onward.plain leads
  refine ⟨?_, ?_⟩
  · intro definition member
    rcases begun.status_source later member with
      ⟨location, content, modified, mode, found, past, -⟩
    have inNamespaces := (begun.definitions definition member).1
    rcases compiled.artifacts _ inNamespaces with ⟨artifact, held, order⟩
    have clock := onward.clock
    rw [Namespace.join_artifactPath]
    refine (isFresh_below_iff later.plain leadsLater
      definition.defined.plainName_of_mem_artifactNames found).2 ⟨artifact, held, ?_⟩
    rw [lastModified_file]
    omega
  · intro wanted member _
    rcases compiled.artifacts wanted member with ⟨artifact, held, -⟩
    rw [Namespace.join_artifactPath, isPresent_iff]
    exact ⟨_, artifact, (status_below_iff later.plain leadsLater
      wanted.plainName_of_mem_artifactNames).2 ⟨rfl, held⟩⟩

/-! ## Filling the target -/

/-- When the step of the batch succeeds the artifacts are up to date. -/
theorem of_compileNamespaces
    (begun : Begun project start plan)
    (compiles : CompilesBatches tools.runner tools.toolchain.java plan.target)
    (onward : Onward project start progress.workspace) {isCompiled : Bool}
    (ran : (compileNamespaces tools plan.namespaces plan.definitions plan.classpath
      plan.target).after progress = (.ok isCompiled, later)) :
    Onward project start later.workspace ∧
      later.workspace.ArtifactsUpToDate plan.target plan.definitions plan.namespaces := by
  rw [compileNamespaces, after_bind_of_ok (after_get progress)] at ran
  rcases after_bind_eq_ok_iff.1 ran with ⟨due, asked, isAsked, ran⟩
  rw [ofSystem, after_ofExcept, Prod.mk.injEq, mapError_eq_ok_iff] at isAsked
  rcases isAsked with ⟨isDue, rfl⟩
  cases due with
  | false =>
      rw [if_neg (by simp), after_pure, Prod.mk.injEq] at ran
      rcases ran with ⟨-, rfl⟩
      exact ⟨onward, isBatchDue_eq_ok_false_iff.1 isDue⟩
  | true =>
      rw [if_pos rfl] at ran
      rcases after_bind_eq_ok_iff.1 ran with ⟨value, reached, batch, last⟩
      rw [after_pure, Prod.mk.injEq] at last
      rcases last with ⟨-, rfl⟩
      rcases of_runBatch_eq_ok batch with ⟨nothing, rfl⟩ | ⟨ready, output, making, ended, succeeded⟩
      · refine ⟨onward, ?_, ?_⟩
        · intro definition member
          have inNamespaces := (begun.definitions definition member).1
          rw [nothing] at inNamespaces
          cases inNamespaces
        · intro wanted member
          rw [nothing] at member
          cases member
      · rw [after_makeDirectories, Prod.mk.injEq, mapError_eq_ok_iff] at making
        rcases making with ⟨outcome, rfl⟩
        rcases onlyMade_makeDirectories onward.plain begun.absolute with ⟨only, succeeds⟩
        have leads := succeeds outcome
        have compiled := compiles _ _ _ _ _ _ only.plain leads ended succeeded
        have made := begun.onward_of_onlyMade onward only
        exact ⟨begun.onward_of_filled made compiled.toFilled,
          begun.artifacts_of_compiled made leads compiled⟩

end Begun

/-- The target is a directory whose artifacts are up to date. -/
structure Ready (project : Project) (start : Workspace) (plan : Plan) (workspace : Workspace) :
    Prop extends Onward project start workspace where
  leads : workspace.LeadsToDirectory plan.target (placeOf plan.target)
  artifacts : workspace.ArtifactsUpToDate plan.target plan.definitions plan.namespaces

theorem Ready.of_filled
    (begun : Begun project start plan) (ready : Ready project start plan before)
    (filled : Filled (placeOf plan.target) before after) : Ready project start plan after := by
  have onward := begun.onward_of_filled ready.toOnward filled
  refine ⟨onward, filled.leadsToDirectory ready.plain ready.leads, ?_⟩
  exact ready.artifacts.advance ready.plain filled.toAdvanced
    (begun.sourcesKept ready.toOnward onward)

namespace Begun

theorem filled_pass
    (begun : Begun project start plan) (ready : Ready project start plan progress.workspace)
    (hindrances : Hindrances) (member : root ∈ plan.sources.roots) :
    Filled (placeOf plan.target) progress.workspace
      ((copyResources hindrances root plan.target plan.namespaces).after progress).2.workspace :=
  filled_copyResources ready.plain ready.leads (begun.roots root member).absolute

/-- After a pass over its root the copy of a file is not older. -/
theorem notOlder_of_copyResources
    (begun : Begun project start plan) (ready : Ready project start plan progress.workspace)
    (member : root ∈ plan.sources.roots) {pass : ResourceReport}
    (passed : (copyResources hindrances root plan.target plan.namespaces).after progress =
      (.ok pass, later))
    (found : start.tree.find? (placeOf root ++ names) = some (.file content modified mode))
    (avoided : avoids (some plan.target) root names = true)
    (included : isResource plan.namespaces names = true) :
    later.workspace.NotOlder (placeOf plan.target ++ names) modified := by
  have known := begun.roots root member
  have here := (ready.sameFiles _ known.apart names content modified mode).2 found
  have past := Int.le_trans (begun.past root member _ _ _ _ found) ready.clock
  have differs : ∀ inner, placeOf root ++ names ≠ placeOf plan.target ++ inner := by
    rw [begun.place]
    exact known.apart.differs names
  have refreshes :
      ∀ {result reached next entry},
        Filled (placeOf plan.target) progress.workspace reached.workspace →
          reached.workspace.tree.find? (placeOf root ++ names) = some entry →
            Refreshed (placeOf plan.target) names (plan.target.below names) entry reached
                (.ok result, next) →
              next.workspace.NotOlder (placeOf plan.target ++ names) modified := by
    intro result reached next entry filled held refreshed
    rw [filled.outside _ differs, here] at held
    cases held
    cases refreshed with
    | upToDate fresh =>
        exact fresh
    | copied only isFile directory noDirectory stale =>
        refine ⟨_, FileTree.find?_set_self _ _ _, ?_⟩
        have earlier := filled.clock
        have clock := only.clock
        simp only [lastModified_file, tick, Instant.next]
        omega
  refine of_copyResources
    (fun reached => reached.NotOlder (placeOf plan.target ++ names) modified) ready.plain
    ready.leads known.absolute ⟨content, modified, mode, here⟩ avoided included refreshes ?_ passed
  intro before after reached filled notOlder
  exact filled.notOlder reached.plain (Int.le_trans past reached.clock) notOlder

/-- A pass leaves everything ready, and after it the copies of its root are up to date. -/
theorem ready_pass
    (begun : Begun project start plan) (hindrances : Hindrances)
    (member : root ∈ plan.sources.roots) :
    Keeps (fun reached => Ready project start plan reached.workspace)
      (copyResources hindrances root plan.target plan.namespaces) :=
  fun _ ready => ready.of_filled begun (begun.filled_pass ready hindrances member)

/-- After the passes over all roots no copy is older. -/
theorem notOlder_of_passes
    (begun : Begun project start plan) (ready : Ready project start plan progress.workspace)
    (member : root ∈ plan.sources.roots) {passes : List ResourceReport}
    (passing : (plan.sources.roots.mapM fun root =>
      copyResources hindrances root plan.target plan.namespaces).after progress = (.ok passes, later))
    (found : start.tree.find? (placeOf root ++ names) = some (.file content modified mode))
    (avoided : avoids (some plan.target) root names = true)
    (included : isResource plan.namespaces names = true) :
    later.workspace.NotOlder (placeOf plan.target ++ names) modified := by
  have past := begun.past root member _ _ _ _ found
  have stays :
      ∀ other ∈ plan.sources.roots,
        Keeps
          (fun reached => Ready project start plan reached.workspace ∧
            reached.workspace.NotOlder (placeOf plan.target ++ names) modified)
          (copyResources hindrances other plan.target plan.namespaces) := by
    rintro other inRoots reached ⟨held, notOlder⟩
    refine ⟨begun.ready_pass hindrances inRoots reached held, ?_⟩
    exact (begun.filled_pass held hindrances inRoots).notOlder held.plain (Int.le_trans past held.clock)
      notOlder
  have achieved :=
    achieved_of_after_mapM member (fun other inRoots => begun.ready_pass hindrances inRoots)
      (fun {pass reached next} held one => by
        have kept := begun.ready_pass hindrances member reached held
        rw [one] at kept
        exact ⟨kept, begun.notOlder_of_copyResources held member one found avoided included⟩)
      stays ready passing
  exact achieved.2

theorem listedFiles_eq
    (begun : Begun project start plan) (onward : Onward project start workspace) {source : Path}
    (member : source ∈ plan.sources.roots ++ plan.sources.files) :
    workspace.listedFiles source = start.listedFiles source := by
  have settled :
      start.isPresent source = true ∧
        (project.layout start.current).Root (placeOf source) := by
    rcases List.mem_append.1 member with inRoots | inFiles
    · have known := begun.roots source inRoots
      rcases known.leads with ⟨modified, found⟩
      exact ⟨(isPresent_iff _ _).2 ⟨_, _, found⟩, known.apart⟩
    · rcases begun.files source inFiles with ⟨-, isFile, apart⟩
      rcases (isFile_iff _ _).1 isFile with ⟨location, content, modified, mode, found⟩
      exact ⟨(isPresent_iff _ _).2 ⟨_, _, found⟩, apart⟩
  rcases onward.kind_eq begun.plain fun _ => settled.1 with ⟨directory, file⟩
  rw [listedFiles, listedFiles, directory, file,
    fileNames_of_sameFiles begun.plain onward.plain onward.sameFiles settled.2]

/-- Once the target is filled there is nothing to do. -/
theorem upToDate_of_fillTarget
    (begun : Begun project start plan)
    (compiles : CompilesBatches tools.runner tools.toolchain.java plan.target)
    (begins : progress.workspace = start) {filled : Bool × List ResourceReport}
    (ran : (fillTarget tools plan).after progress = (.ok filled, later)) :
    Onward project start later.workspace ∧ UpToDate later.workspace plan := by
  rcases after_bind_eq_ok_iff.1 ran with ⟨isCompiled, compiled, batch, ran⟩
  rcases after_bind_eq_ok_iff.1 ran with ⟨value, made, making, ran⟩
  rcases after_bind_eq_ok_iff.1 ran with ⟨passes, final, passing, last⟩
  rw [after_pure, Prod.mk.injEq] at last
  rcases last with ⟨-, rfl⟩
  have first : Onward project start progress.workspace := by
    rw [begins]
    exact Onward.refl begun.plain project
  rcases begun.of_compileNamespaces compiles first batch with ⟨onward, artifacts⟩
  rw [after_makeDirectories, Prod.mk.injEq, mapError_eq_ok_iff] at making
  rcases making with ⟨outcome, rfl⟩
  rcases onlyMade_makeDirectories onward.plain begun.absolute with ⟨only, leads⟩
  have madeOnward := begun.onward_of_onlyMade onward only
  have ready : Ready project start plan
      (Progress.mk (compiled.workspace.makeDirectories plan.target).2 compiled.commands
        compiled.notices).workspace :=
    ⟨madeOnward, leads outcome,
      artifacts.advance onward.plain only.advanced (begun.sourcesKept onward madeOnward)⟩
  have readyLater := Keeps.mapM (fun root member => begun.ready_pass tools.hindrances member) _ ready
  rw [passing] at readyLater
  refine ⟨readyLater.toOnward, ?_⟩
  refine
    { plain := readyLater.plain
      absolute := begun.absolute
      leads := readyLater.leads
      artifacts := readyLater.artifacts
      roots := ?_
      files := fun file member => (begun.files file member).1
      copies := ?_
      unowned := ?_ }
  · intro root member
    have known := begun.roots root member
    exact ⟨known.absolute, isDirectory_iff_leadsToDirectory.2
      ⟨_, readyLater.leadsToDirectory begun.plain known.leads⟩⟩
  · intro root member names content modified mode found avoided included
    have known := begun.roots root member
    have startFound := (readyLater.sameFiles _ known.apart names content modified mode).1 found
    exact begun.notOlder_of_passes ready member passing startFound avoided included
  · intro source member file listed
    rw [begun.listedFiles_eq readyLater.toOnward member] at listed
    exact begun.unowned source member file listed

end Begun

/-! ## The same build again -/

section Repeated

variable {repository : LocalRepository} {report : BuildReport}

/-- What a build of a project with sources apart from the target has left when it succeeds. -/
theorem upToDate_of_compile
    (plain : start.tree.Plain) (disjoint : Disjoint project start.current)
    (past : Past project start) (unowned : Unowned project start)
    (compiles : CompilesBatches tools.runner tools.toolchain.java
      (Project.anchor start.current project.target))
    (first : (compile tools project.sources project.target dependencies project.options).on start =
      (.ok report, progress)) :
    ∃ plan,
      readPlan tools project.sources project.target dependencies project.options start = .ok plan ∧
        Onward project start progress.workspace ∧ UpToDate progress.workspace plan ∧
          report.namespaces = plan.namespaces ∧ report.classpath = plan.classpath := by
  rw [on_eq_after, compile_eq] at first
  rcases after_bind_eq_ok_iff.1 first with ⟨plan, planned, planning, first⟩
  rcases after_bind_eq_ok_iff.1 first with ⟨filled, final, filling, finishing⟩
  have reads := reads_makePlan tools project.sources project.target dependencies project.options
  rcases reads.of_after_eq_ok planning with ⟨plans, sameWorkspace, -⟩
  have begun := begun_of_readPlan plain disjoint past unowned plans
  rw [← begun.target] at compiles
  rcases begun.upToDate_of_fillTarget compiles sameWorkspace filling with ⟨onward, upToDate⟩
  rw [upToDate.finish tools project.options filled, Prod.mk.injEq, Except.ok.injEq] at finishing
  rcases finishing with ⟨rfl, rfl⟩
  exact ⟨plan, plans, onward, upToDate, rfl, rfl⟩

/-- Where neither the target nor a source is spelled with a step back, no build makes something of a
source that led nowhere. -/
theorem settled_of_compile
    (plain : start.tree.Plain) (disjoint : Disjoint project start.current)
    (past : Past project start) (unowned : Unowned project start)
    (compiles : CompilesBatches tools.runner tools.toolchain.java
      (Project.anchor start.current project.target))
    (first : (compile tools project.sources project.target dependencies project.options).on start =
      (.ok report, progress))
    (targetSteps : ∀ step ∈ (Project.anchor start.current project.target).steps, PlainName step)
    (sourceSteps : ∀ source ∈ project.sources,
      ".." ∉ (Project.anchor start.current source).steps) :
    Settled project start progress.workspace := by
  rcases upToDate_of_compile plain disjoint past unowned compiles first with ⟨_, _, onward, -⟩
  exact settled_of_onward plain disjoint onward targetSteps sourceSteps

/-- The same build again succeeds with the same namespaces and the same classpath, runs no command,
copies nothing, reports that there was nothing to do and leaves everything as it is. -/
def DoesNothingAgain (tools : Tools) (project : Project) (dependencies : List Dependency)
    (report : BuildReport) (workspace : Workspace) : Prop :=
  ∃ again progress,
    (compile tools project.sources project.target dependencies project.options).on workspace =
        (.ok again, progress) ∧
      again.namespaces = report.namespaces ∧ again.classpath = report.classpath ∧
        again.copied = [] ∧ again.didNothing = true ∧
          progress.commands = [] ∧ progress.workspace = workspace

/-- A build that has succeeded does nothing when it is repeated, provided that its sources are apart
from the target and none of them has come to lead somewhere, no file of theirs is of the future or
written in a secondary language, and the batch writes its artifacts. -/
theorem repeated_build_does_nothing
    (plain : start.tree.Plain) (resolver : tools.resolver = repository.resolve)
    (disjoint : Disjoint project start.current) (past : Past project start)
    (unowned : Unowned project start)
    (compiles : CompilesBatches tools.runner tools.toolchain.java
      (Project.anchor start.current project.target))
    (first : (compile tools project.sources project.target dependencies project.options).on start =
      (.ok report, progress))
    (settled : Settled project start progress.workspace) :
    DoesNothingAgain tools project dependencies report progress.workspace := by
  rcases upToDate_of_compile plain disjoint past unowned compiles first with
    ⟨plan, planned, onward, upToDate, sameNamespaces, sameClasspath⟩
  have plannedAgain := readPlan_of_onward plain resolver disjoint onward settled planned
  rw [DoesNothingAgain, sameNamespaces, sameClasspath]
  exact compile_of_upToDate plannedAgain upToDate

end Repeated

/-! ## One source -/

/-- A source that holds a file and the source of a namespace. -/
def oneNamespace : Workspace :=
  { oneFile with tree := oneFile.tree.set ["src", "a.clj"] (.file [] ⟨0⟩ 420) }

/-- A batch that writes the artifact of one namespace. -/
def batchRunner : Runner :=
  ⟨fun _ command workspace =>
    if command.arguments.drop 4 = ["a"] ∧ workspace.tree.HoldsDirectory ["out"] ∧
        ¬ workspace.tree.HoldsDirectory ["out", "a__init.class"] then
      (.ok .silentSuccess, workspace.written ["out", "a__init.class"] [] 420)
    else
      (.error "not found", workspace)⟩

theorem place_out : placeOf (Project.anchor [] ⟨"out"⟩) = ["out"] := by
  decide +kernel

/-- Whatever it is given, this batch does nothing but fill the target. -/
theorem filled_batchRunner
    (earlier : List Command) (command : Command) (plain : workspace.tree.Plain) :
    Filled ["out"] workspace (batchRunner.run earlier command workspace).2 := by
  simp only [batchRunner]
  split
  · next writes =>
      rcases writes with ⟨-, directory, noDirectory⟩
      have fileName : FileName "a__init.class" := by
        decide +kernel
      have above : workspace.tree.HoldsDirectory (["out"] ++ ["a__init.class"]).dropLast := directory
      have vacant : ¬ workspace.tree.HoldsDirectory (["out"] ++ ["a__init.class"]) := noDirectory
      exact filled_written plain (by simp) (by simpa using fileName) above vacant [] 420
  · exact Filled.refl plain ["out"]

theorem compilesBatches_batchRunner :
    CompilesBatches batchRunner ⟨"java"⟩ (Project.anchor [] ⟨"out"⟩) := by
  intro earlier namespaces classpath before output after plain _ ran _
  have filled := filled_batchRunner earlier (Batch.command ⟨"java"⟩ namespaces classpath
    (Project.anchor [] ⟨"out"⟩)) plain
  rw [ran, ← place_out] at filled
  simp only [batchRunner] at ran
  split at ran
  · next writes =>
      rcases writes with ⟨names, -, -⟩
      have inBytes : (namespaces.map Namespace.name).map Text.encode = ["a"].map Text.encode := by
        rw [List.map_map]
        exact names
      have isNames : namespaces.map Namespace.name = ["a"] :=
        Text.encode_injective.list_map inBytes
      rcases Prod.mk.inj ran with ⟨-, rfl⟩
      rcases List.map_eq_singleton_iff.1 isNames with ⟨defined, rfl, isName⟩
      have ownBytes : Text.encode "a__init.class" = "a__init.class" := by
        decide +kernel
      have artifact : defined.artifactNames = ["a__init.class"] := by
        have segments : defined.segments = ["a"] := by
          rw [← Text.fields_joinWith defined.nonempty fun segment member =>
            (plainName_of_canBeSegment (defined.canBeSegment_of_mem member)).2]
          exact (congrArg (Text.fields '.') isName).trans (by decide +kernel)
        simp [Namespace.artifactNames, Namespace.namesWith, Namespace.lastSegment, segments,
          Namespace.artifactSuffix, ownBytes]
      refine ⟨filled, ?_⟩
      intro other member
      rw [List.mem_singleton.1 member, artifact, place_out]
      refine ⟨_, FileTree.find?_set_self _ _ _, ?_⟩
      simp only [lastModified_file, tick, Instant.next]
      omega
  · cases ran

theorem disjoint_oneSource : Disjoint (oneSource ⟨"out"⟩) [] := by
  rw [disjoint_iff]
  decide +kernel

theorem unowned_oneNamespace : Unowned (oneSource ⟨"out"⟩) oneNamespace := by
  apply unowned_of_listedFiles
  decide +kernel

/-- A namespace is compiled and a file is copied, and when the build is repeated nothing is done. -/
theorem compiled_namespace_is_not_compiled_again :
    ∃ report progress,
      buildOnce batchRunner ⟨"out"⟩ oneNamespace = (.ok report, progress) ∧
        report.compiled = true ∧ report.copied ≠ [] ∧
          DoesNothingAgain (toolsOf batchRunner) (oneSource ⟨"out"⟩) [] report
            progress.workspace := by
  have worked :
      (buildOnce batchRunner ⟨"out"⟩ oneNamespace).1.toOption.any (fun report =>
        report.compiled && !report.copied.isEmpty) = true := by
    decide +kernel
  cases ran : buildOnce batchRunner ⟨"out"⟩ oneNamespace with
  | mk outcome progress =>
      rw [ran] at worked
      cases outcome with
      | error failure =>
          cases worked
      | ok report =>
          simp only [Except.toOption, Option.any_some, Bool.and_eq_true, Bool.not_eq_true',
            List.isEmpty_eq_false_iff] at worked
          refine ⟨report, progress, rfl, worked.1, worked.2, ?_⟩
          have plain : oneNamespace.tree.Plain := by
            decide +kernel
          have resolver :
              (toolsOf batchRunner).resolver = (LocalRepository.mk none ⟨""⟩).resolve :=
            rfl
          have past : Past (oneSource ⟨"out"⟩) oneNamespace :=
            past_of_entries (by decide +kernel)
          have settled : Settled (oneSource ⟨"out"⟩) oneNamespace progress.workspace := by
            intro source listed path form _
            rw [List.mem_singleton.1 listed] at form
            rw [← anchor_of_absolute form]
            decide +kernel
          exact repeated_build_does_nothing plain resolver disjoint_oneSource past
            unowned_oneNamespace compilesBatches_batchRunner ran settled

/-- A target on whose way a directory is made that a source steps through. -/
def steppedOver : Project :=
  ⟨[⟨"src"⟩, ⟨"src/../gone"⟩], ⟨"gone/../out"⟩, ⟨none, .firstMatch⟩⟩

/-- Commands that cannot be started. -/
def refusingRunner : Runner :=
  ⟨fun _ _ workspace => (.error "not found", workspace)⟩

/-- What a build of this project does. -/
def buildOver (workspace : Workspace) : Except BuildError BuildReport × Progress :=
  (compile (toolsOf refusingRunner) steppedOver.sources steppedOver.target []
    steppedOver.options).on workspace

/-- A build that has succeeded does nothing again, whatever has become of its sources. -/
def IdleForAnySources : Prop :=
  ∀ (start : Workspace) (project : Project) (tools : Tools) (repository : LocalRepository)
      (dependencies : List Dependency) (report : BuildReport) (progress : Progress),
    start.tree.Plain → tools.resolver = repository.resolve → Disjoint project start.current →
      Past project start → Unowned project start →
        CompilesBatches tools.runner tools.toolchain.java
            (Project.anchor start.current project.target) →
          (compile tools project.sources project.target dependencies project.options).on start =
              (.ok report, progress) →
            DoesNothingAgain tools project dependencies report progress.workspace

/-- Where a listed source did not exist and a build has made it on the way to its target, the same
build again finds it: it has another classpath. -/
theorem repeated_builds_are_not_always_idle : ¬ IdleForAnySources := by
  intro idle
  have plain : oneFile.tree.Plain := by
    decide +kernel
  have disjoint : Disjoint steppedOver [] := by
    rw [disjoint_iff]
    decide +kernel
  have unowned : Unowned steppedOver oneFile := by
    apply unowned_of_listedFiles
    decide +kernel
  have compiles :
      CompilesBatches refusingRunner ⟨"java"⟩ (Project.anchor [] steppedOver.target) := by
    intro earlier namespaces classpath before output after _ _ ran _
    cases ran
  have found :
      (buildOver oneFile).1.toOption.map (fun report => report.classpath.entries) =
        some [⟨"/src"⟩, ⟨"/clj.jar"⟩] := by
    decide +kernel
  have foundAgain :
      (buildOver (buildOver oneFile).2.workspace).1.toOption.map
          (fun report => report.classpath.entries) =
        some [⟨"/src"⟩, ⟨"/src/../gone"⟩, ⟨"/clj.jar"⟩] := by
    decide +kernel
  cases ran : buildOver oneFile with
  | mk outcome progress =>
      rw [ran] at found foundAgain
      cases outcome with
      | error failure =>
          cases found
      | ok report =>
          have again :=
            idle oneFile steppedOver (toolsOf refusingRunner) ⟨none, ⟨""⟩⟩ [] report progress plain
              rfl disjoint (past_of_entries (by decide +kernel)) unowned compiles ran
          rcases again with ⟨second, later, ranAgain, -, sameClasspath, -⟩
          have isAgain : buildOver progress.workspace = (.ok second, later) := ranAgain
          rw [isAgain] at foundAgain
          simp only [Except.toOption, Option.map_some, Option.some.injEq] at found foundAgain
          rw [sameClasspath, found] at foundAgain
          exact absurd (congrArg List.length foundAgain) (by decide)

end Build

end ClojureBuild
