import ClojureBuild.Proofs.Build.Preflight
import ClojureBuild.Proofs.Build.Preparation
import ClojureBuild.Proofs.Build.Repetition

/-!
# What a build leaves alone

A build makes the directories on the way to its target and writes below it.  Nothing else changes and
nothing is lost, wherever the build stops, as long as the same holds of the commands that it runs.
-/

namespace ClojureBuild

namespace Workspace

variable {before between after : Workspace} {place location : Location} {path : Path}
variable {places more : Location → Prop}

/-! ## Changes below a place -/

/-- A location lies below a place, which is not below itself. -/
def Inside (place location : Location) : Prop :=
  ∃ names, names ≠ [] ∧ location = place ++ names

/-- Nothing has been lost, the files that are not below a place are the same, and what is new there is
a directory at one of certain locations. -/
structure ChangedWithin (place : Location) (places : Location → Prop) (before after : Workspace) :
    Prop where
  plain : after.tree.Plain
  grows : before.tree.Grows after.tree
  files : ∀ location content modified mode, ¬ Inside place location →
    (after.tree.find? location = some (.file content modified mode) ↔
      before.tree.find? location = some (.file content modified mode))
  made : ∀ location, ¬ Inside place location → after.tree.find? location ≠ none →
    before.tree.find? location ≠ none ∨ places location ∧ after.tree.HoldsDirectory location

namespace ChangedWithin

theorem refl (plain : before.tree.Plain) (place : Location) (places : Location → Prop) :
    ChangedWithin place places before before where
  plain := plain
  grows := FileTree.Grows.refl before.tree
  files := fun _ _ _ _ _ => Iff.rfl
  made := fun _ _ => Or.inl

theorem trans
    (first : ChangedWithin place places before between)
    (second : ChangedWithin place places between after) :
    ChangedWithin place places before after where
  plain := second.plain
  grows := first.grows.trans second.grows
  files := fun location content modified mode outside =>
    (second.files location content modified mode outside).trans
      (first.files location content modified mode outside)
  made := by
    intro location outside present
    cases second.made location outside present with
    | inr isNew =>
        exact Or.inr isNew
    | inl earlier =>
        -- a directory made by the first change is still one after the second
        exact (first.made location outside earlier).imp_right fun ⟨isPlace, directory⟩ =>
          ⟨isPlace, second.grows.directories directory⟩

theorem mono
    (changed : ChangedWithin place places before after)
    (wider : ∀ location, places location → more location) :
    ChangedWithin place more before after where
  plain := changed.plain
  grows := changed.grows
  files := changed.files
  made := fun location outside present =>
    (changed.made location outside present).imp_right fun ⟨isPlace, directory⟩ =>
      ⟨wider location isPlace, directory⟩

theorem of_filled (filled : Filled place before after) (directory : before.tree.HoldsDirectory place)
    (places : Location → Prop) : ChangedWithin place places before after := by
  have same : ∀ location, location ≠ place → ¬ Inside place location →
      after.tree.find? location = before.tree.find? location := by
    intro location differs outside
    refine filled.outside location fun names isBelow => outside ⟨names, ?_, isBelow⟩
    rintro rfl
    exact differs (isBelow.trans (List.append_nil place))
  obtain ⟨made, held⟩ := directory
  obtain ⟨changed, heldLater⟩ := filled.grows.directories ⟨made, held⟩
  refine ⟨filled.plain, filled.grows, ?_, ?_⟩
  · intro location content modified mode outside
    by_cases here : location = place
    · rw [here, held, heldLater]
      simp
    · rw [same location here outside]
  · intro location outside present
    by_cases here : location = place
    · rw [here, held]
      exact Or.inl (Option.some_ne_none _)
    · rw [same location here outside] at present
      exact Or.inl present

theorem of_onlyMade (only : OnlyMade places before after) (place : Location) :
    ChangedWithin place places before after where
  plain := only.plain
  grows := only.grows
  files := fun _ _ _ _ _ => only.find?_eq_file_iff
  made := by
    intro location _ present
    cases held : before.tree.find? location with
    | some entry =>
        exact Or.inl (Option.some_ne_none entry)
    | none =>
        obtain ⟨entry, found⟩ := Option.ne_none_iff_exists'.1 present
        obtain ⟨isPlace, isDirectory⟩ := only.made held found
        refine Or.inr ⟨isPlace, ?_⟩
        cases entry with
        | directory modified =>
            exact ⟨modified, found⟩
        | file content modified mode =>
            cases isDirectory
        | link target =>
            cases isDirectory

/-- A path that leads to a directory leads to it as long as nothing is lost. -/
theorem leadsToDirectory
    (changed : ChangedWithin place places before after) (plain : before.tree.Plain)
    (absolute : path.isAbsolute = true) (leads : before.LeadsToDirectory path location) :
    after.LeadsToDirectory path location := by
  obtain ⟨noZero, followed, directory⟩ :=
    (leadsToDirectory_iff_of_isAbsolute plain absolute).1 leads
  refine (leadsToDirectory_iff_of_isAbsolute changed.plain absolute).2 ⟨noZero, ?_, ?_⟩
  · exact changed.grows.follow plain changed.plain followed
  · exact changed.grows.directories directory

end ChangedWithin

/-- What is on the way to a path without steps back is an initial part of its place. -/
theorem prefix_placeOf_of_onTheWay
    (onward : ".." ∉ path.steps) (onTheWay : OnTheWay path location) : location <+: placeOf path := by
  have plainSteps := Path.plainName_of_mem_steps onward
  obtain ⟨initial, isInitial, rfl⟩ := onTheWay
  have plainInitial : ∀ step ∈ initial, PlainName step :=
    fun step member => plainSteps step (isInitial.subset member)
  rw [FileTree.spell_of_plain [] plainInitial, List.nil_append, placeOf_of_onward plainSteps]
  exact isInitial

end Workspace

namespace Build

open Workspace

variable {start : Workspace} {goal root : Path} {tools : Tools} {plan : Plan}
variable {progress later : Progress} {sources : List Path} {target : Path} {options : BuildOptions}
variable {hindrances : Hindrances}

/-- Where there is a directory at a place, commands create and overwrite files only below it. -/
def ConfinedRunner (place : Location) (runner : Runner) : Prop :=
  ∀ earlier command workspace, workspace.tree.Plain → workspace.tree.HoldsDirectory place →
    ChangedWithin place (fun _ => False) workspace (runner.run earlier command workspace).2

/-- A build that began in a workspace has changed nothing but its target and the way to it. -/
abbrev Framed (goal : Path) (start now : Workspace) : Prop :=
  ChangedWithin (placeOf goal) (fun location => location <+: placeOf goal) start now

/-- The same, and the target is a directory. -/
structure FramedReady (goal : Path) (start now : Workspace) : Prop where
  framed : Framed goal start now
  leads : now.LeadsToDirectory goal (placeOf goal)

theorem FramedReady.advance
    {before after : Workspace} (ready : FramedReady goal start before)
    (absolute : goal.isAbsolute = true)
    (changed : ChangedWithin (placeOf goal) (fun _ => False) before after) :
    FramedReady goal start after where
  framed := ready.framed.trans (changed.mono fun _ => False.elim)
  leads := changed.leadsToDirectory ready.framed.plain absolute ready.leads

theorem runnerKeeps_of_confined
    {runner : Runner} (absolute : goal.isAbsolute = true)
    (confined : ConfinedRunner (placeOf goal) runner) :
    RunnerKeeps runner (FramedReady goal start) := by
  intro earlier command workspace ready
  have directory := ready.leads.holdsDirectory
  exact ready.advance absolute (confined earlier command workspace ready.framed.plain directory)

/-- Making the target makes no more than the directories on the way to it. -/
theorem MakesTarget.framed (absolute : goal.isAbsolute = true) (onward : ".." ∉ goal.steps) :
    MakesTarget goal (Framed goal start) (FramedReady goal start) := by
  have made {progress : Progress} (framed : Framed goal start progress.workspace) :
      Framed goal start ((makeDirectories goal).after progress).2.workspace := by
    have only := (onlyMade_makeDirectories framed.plain absolute).1
    rw [after_makeDirectories]
    exact framed.trans (.of_onlyMade (only.mono fun location =>
      prefix_placeOf_of_onTheWay onward) (placeOf goal))
  refine ⟨fun progress => made, ?_, FramedReady.framed⟩
  intro progress later framed done
  have framedLater := made framed
  rw [done] at framedLater
  exact ⟨framedLater, ((MakesTarget.plain absolute).succeeds framed.plain done).2⟩

/-- A pass over a root writes below the target only. -/
theorem framedReady_copyResources
    (absolute : goal.isAbsolute = true) (rootAbsolute : root.isAbsolute = true)
    (namespaces : List Namespace) :
    KeepsWorkspace (FramedReady goal start) (copyResources hindrances root goal namespaces) := by
  intro progress ready
  have filled : Filled (placeOf goal) progress.workspace
      ((copyResources hindrances root goal namespaces).after progress).2.workspace :=
    filled_copyResources ready.framed.plain ready.leads rootAbsolute
  exact ready.advance absolute (.of_filled filled ready.leads.holdsDirectory _)

theorem framed_fillTarget
    (absolute : plan.target.isAbsolute = true) (onward : ".." ∉ plan.target.steps)
    (roots : ∀ root ∈ plan.sources.roots, root.isAbsolute = true)
    (confined : ConfinedRunner (placeOf plan.target) tools.runner)
    (framed : Framed plan.target start progress.workspace) :
    Framed plan.target start ((fillTarget tools plan).after progress).2.workspace ∧
      ∀ filled later, (fillTarget tools plan).after progress = (.ok filled, later) →
        FramedReady plan.target start later.workspace := by
  have makes : MakesTarget plan.target (Framed plan.target start) (FramedReady plan.target start) :=
    MakesTarget.framed absolute onward
  have kept : RunnerKeeps tools.runner (FramedReady plan.target start) :=
    runnerKeeps_of_confined absolute confined
  have prepares : KeepsWorkspace (Framed plan.target start) (prepareTarget tools plan) :=
    makes.keepsWorkspace_prepareTarget kept
  have prepared := prepares progress framed
  rw [fillTarget_eq, after_bind]
  cases preparing : (prepareTarget tools plan).after progress with
  | mk outcome reached =>
      rw [preparing] at prepared
      cases outcome with
      | error failure =>
          exact ⟨prepared, fun filled later contradiction => by cases contradiction⟩
      | ok compiled =>
          have ready := makes.of_prepareTarget kept makes framed preparing
          have passes :
              KeepsWorkspace (FramedReady plan.target start)
                (plan.sources.roots.mapM
                    (fun root => copyResources tools.hindrances root plan.target plan.namespaces) >>=
                  fun passes => pure (compiled, passes)) :=
            Keeps.bind
              (Keeps.mapM fun root member =>
                framedReady_copyResources absolute (roots root member) plan.namespaces)
              fun held _ => held
          have passed := passes reached ready
          refine ⟨passed.framed, ?_⟩
          intro filled later done
          dsimp only at done
          rwa [done] at passed

theorem framed_finish
    {settings : CompileSettings} (absolute : plan.target.isAbsolute = true)
    (confined : ConfinedRunner (placeOf plan.target) tools.runner)
    (programs : tools.compilers = compilerPrograms tools.runner settings)
    (options : BuildOptions) (filled : Bool × List ResourceReport) :
    KeepsWorkspace (FramedReady plan.target start) (finish tools options plan filled) := by
  intro progress ready
  rw [finish, after_bind_of_ok (after_get progress), after_bind, after_ofReported]
  cases (progress.workspace.distinctFiles (plan.sources.roots ++ plan.sources.files)).1 with
  | error failure =>
      exact ready
  | ok files =>
      simp only [Except.mapError, programs]
      have kept : RunnerKeeps tools.runner (FramedReady plan.target start) :=
        runnerKeeps_of_confined absolute confined
      have delegated :=
        keepsWorkspace_delegate kept settings plan.classpath plan.target
          (options.policy.shares files)
      refine Keeps.bind delegated ?_ _ ready
      intro value reached ended held _
      exact held

/-- A build in a tree without links, whose target is spelled without steps back and whose commands
create and overwrite files only below the target, changes no file elsewhere, makes no entry elsewhere
but directories on the way to the target, and deletes nothing, whether it succeeds or fails. -/
theorem build_changes_only_its_target
    {settings : CompileSettings} (sources : List Path) (target : Path)
    (dependencies : List Dependency) (options : BuildOptions) (plain : start.tree.Plain)
    (onward : ".." ∉ (Project.anchor start.current target).steps)
    (confined : ConfinedRunner (placeOf (Project.anchor start.current target)) tools.runner)
    (programs : tools.compilers = compilerPrograms tools.runner settings) :
    Framed (Project.anchor start.current target) start
      ((compile tools sources target dependencies options).on start).2.workspace := by
  cases planned : readPlan tools sources target dependencies options start with
  | error failure =>
      rw [(compile_of_readPlan_error planned).2.workspace]
      exact .refl plain _ _
  | ok plan =>
      obtain ⟨form, splits, -⟩ := readPlan_eq_ok_iff.1 planned
      have absolute := isAbsolute_of_absolute form
      rw [anchor_of_absolute form] at onward confined ⊢
      have roots : ∀ root ∈ plan.sources.roots, root.isAbsolute = true := by
        intro root member
        obtain ⟨-, source, -, rootForm⟩ := (sorted_of_foldlM splits).roots root member
        exact isAbsolute_of_absolute rootForm
      have begun : readPlan tools sources target dependencies options
          (Progress.start start).workspace = .ok plan :=
        planned
      obtain ⟨notices, planning⟩ :=
        (reads_makePlan tools sources target dependencies options).after_of_ok begun
      have framed : Framed plan.target start (Progress.mk start [] notices).workspace :=
        .refl plain _ _
      obtain ⟨kept, ready⟩ := framed_fillTarget absolute onward roots confined framed
      rw [on_eq_after, compile_eq, after_bind_of_ok planning, after_bind]
      cases filling : (fillTarget tools plan).after ⟨start, [], notices⟩ with
      | mk outcome later =>
          rw [filling] at kept
          simp only [Progress.start, filling]
          cases outcome with
          | error failure =>
              exact kept
          | ok filled =>
              exact (framed_finish absolute confined programs options filled later
                (ready filled later filling)).framed

/-- The artifact of a namespace and the copy of a file are new, and nothing else is but the target. -/
theorem compiled_namespace_changes_only_its_target :
    ∃ outcome progress,
      buildOnce batchRunner ⟨"out"⟩ oneNamespace = (outcome, progress) ∧
        progress.workspace.isFile ⟨"/out/a__init.class"⟩ = true ∧
          progress.workspace.isFile ⟨"/out/r"⟩ = true ∧
            Framed (Project.anchor oneNamespace.current ⟨"out"⟩) oneNamespace
              progress.workspace := by
  have plain : oneNamespace.tree.Plain := by
    decide +kernel
  have onward : ".." ∉ (Project.anchor oneNamespace.current ⟨"out"⟩).steps := by
    decide +kernel
  have confined :
      ConfinedRunner (placeOf (Project.anchor oneNamespace.current ⟨"out"⟩))
        (toolsOf batchRunner).runner := by
    intro earlier command workspace isPlain directory
    have isPlace : placeOf (Project.anchor oneNamespace.current ⟨"out"⟩) = ["out"] := place_out
    rw [isPlace] at directory ⊢
    exact .of_filled (filled_batchRunner earlier command isPlain) directory _
  have programs : (toolsOf batchRunner).compilers =
      compilerPrograms (toolsOf batchRunner).runner CompileSettings.default :=
    rfl
  have framed :=
    build_changes_only_its_target [⟨"src"⟩] ⟨"out"⟩ [] ⟨none, .firstMatch⟩ plain onward confined
      programs
  have written :
      ((buildOnce batchRunner ⟨"out"⟩ oneNamespace).2.workspace.isFile ⟨"/out/a__init.class"⟩ &&
        (buildOnce batchRunner ⟨"out"⟩ oneNamespace).2.workspace.isFile ⟨"/out/r"⟩) = true := by
    decide +kernel
  rw [← buildOnce] at framed
  cases ran : buildOnce batchRunner ⟨"out"⟩ oneNamespace with
  | mk outcome progress =>
      rw [ran] at written framed
      rw [Bool.and_eq_true] at written
      exact ⟨outcome, progress, rfl, written.1, written.2, framed⟩

end Build

end ClojureBuild
