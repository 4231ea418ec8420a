import ClojureBuild.Proofs.Build.BatchDecision
import ClojureBuild.Proofs.Build.FailStop
import ClojureBuild.Proofs.Build.Resources

/-!
# Targets below a root

When the target lies below a root, only the pass that copies resources leaves it out.  Detection and
the listing of secondary sources walk through it: a file there is a source for them like any other one.
-/

namespace ClojureBuild

open Workspace

namespace Path

/-- A path leads to a place below a target. -/
def IsBelow (target path : Path) : Prop :=
  ∃ names, names ≠ [] ∧ placeOf path = placeOf target ++ names

end Path

namespace Build

open ClojureBuild.Path

variable {plan : Plan} {root : Path} {names : List String} {options : BuildOptions}
variable {workspace start filled : Workspace} {settings : CompileSettings}

/-! ## Targets inside a root -/

/-- All paths of a plan are absolute. -/
structure Anchored (plan : Plan) : Prop where
  target : plan.target.isAbsolute = true
  sources : ∀ source ∈ plan.sources.roots ++ plan.sources.files, source.isAbsolute = true

/-- The target lies inside a root, without steps back, and no source lies in the target. -/
structure Nested (plan : Plan) : Prop where
  onward : ∀ path ∈ plan.target :: plan.sources.roots, ∀ step ∈ path.steps, PlainName step
  inside : ∃ root ∈ plan.sources.roots, placeOf root <+: placeOf plan.target
  outside : ∀ root ∈ plan.sources.roots, ¬ placeOf plan.target <+: placeOf root
  files : ∀ file ∈ plan.sources.files, ¬ IsBelow plan.target file

theorem Anchored.ofRoot (anchored : Anchored plan) (member : root ∈ plan.sources.roots) :
    root.isAbsolute = true :=
  anchored.sources root (List.mem_append_left _ member)

namespace Nested

theorem rootOnward (nested : Nested plan) (member : root ∈ plan.sources.roots) :
    ∀ step ∈ root.steps, PlainName step :=
  nested.onward root (List.mem_cons_of_mem _ member)

/-- Names that lead from a root to a place below the target lead through the target. -/
theorem exists_initial (nested : Nested plan) (member : root ∈ plan.sources.roots)
    {inner : List String} (place : placeOf root ++ names = placeOf plan.target ++ inner) :
    ∃ initial, initial ≠ [] ∧ placeOf plan.target = placeOf root ++ initial ∧
      names = initial ++ inner := by
  have comparable :=
    List.prefix_or_prefix_of_prefix (List.prefix_append (placeOf root) names)
      (place ▸ List.prefix_append (placeOf plan.target) inner)
  -- the target cannot lie above the root, so the root lies above the target
  obtain ⟨initial, isPlace⟩ := comparable.resolve_right (nested.outside root member)
  refine ⟨initial, ?_, isPlace.symm, ?_⟩
  · rintro rfl
    rw [List.append_nil] at isPlace
    exact nested.outside root member (isPlace ▸ List.prefix_refl _)
  · rw [← isPlace, List.append_assoc] at place
    exact List.append_cancel_left place

/-- A walk that skips the target meets no file below it. -/
theorem not_isBelow_of_avoids
    (nested : Nested plan) (anchored : Anchored plan) (member : root ∈ plan.sources.roots)
    (plainNames : ∀ name ∈ names, PlainName name)
    (avoided : avoids (some plan.target) root names = true) :
    ¬ IsBelow plan.target (root.below names) := by
  rintro ⟨inner, -, place⟩
  rw [placeOf_below root plainNames] at place
  obtain ⟨initial, nonempty, isPlace, split⟩ := nested.exists_initial member place
  have same :=
    same_below_of_placeOf (anchored.ofRoot member) (nested.rootOnward member) anchored.target
      (nested.onward plan.target List.mem_cons_self) isPlace
  rw [avoids_some_iff.1 avoided initial nonempty (split ▸ List.prefix_append _ _)] at same
  cases same

end Nested

/-! ## Detection -/

/-- No namespace of the plan has its source below the target, exactly if there was no source of a
namespace there. -/
theorem detection_spares_iff
    (anchored : Anchored plan) (plain : start.tree.Plain) (detects : options.libs = none)
    (chosen : readNamespaces options plan.sources.roots start = .ok plan.namespaces) :
    (∀ wanted ∈ plan.namespaces, ∀ root ∈ plan.sources.roots,
        start.isFile (root.join wanted.sourcePath) = true →
          ¬ IsBelow plan.target (root.join wanted.sourcePath)) ↔
      ∀ names, names ≠ [] → start.tree.HoldsFile (placeOf plan.target ++ names) →
        ∀ root ∈ plan.sources.roots, ∀ defined : Namespace,
          placeOf root ++ defined.sourceNames ≠ placeOf plan.target ++ names := by
  have none : readLibs options.libs = .ok none := by rw [detects]; rfl
  rcases of_readNamespaces_eq_ok chosen with named | ⟨-, directories, isDetected⟩
  · rw [none] at named
    cases named
  have leads : ∀ root ∈ plan.sources.roots, start.LeadsToDirectory root (placeOf root) := by
    intro root member
    obtain ⟨location, leads⟩ := isDirectory_iff_leadsToDirectory.1 (directories root member)
    rwa [eq_placeOf_of_leadsToDirectory plain (anchored.ofRoot member) leads] at leads
  have place (defined : Namespace) : ∀ root ∈ plan.sources.roots,
      placeOf (root.join defined.sourcePath) = placeOf root ++ defined.sourceNames := by
    intro root member
    rw [Namespace.join_sourcePath, placeOf_below root defined.plainName_of_mem_sourceNames]
  have isFile (defined : Namespace) : ∀ root ∈ plan.sources.roots,
      (start.isFile (root.join defined.sourcePath) = true ↔
        start.tree.HoldsFile (placeOf root ++ defined.sourceNames)) := by
    intro root member
    rw [Namespace.join_sourcePath]
    exact isFile_below_iff plain (leads root member) defined.plainName_of_mem_sourceNames
  constructor
  · intro spared names nonempty file root member defined same
    rw [← same] at file
    have source := (isFile defined root member).2 file
    have told := mem_detected_of_isFile plain (leads root member)
      (same_standardInput_of_isAbsolute (anchored.ofRoot member)) member source
    have wanted : defined ∈ plan.namespaces := by
      rw [isDetected]
      exact List.mem_map.2 ⟨_, told, rfl⟩
    exact spared defined wanted root member source
      ⟨names, nonempty, by rw [place defined root member, same]⟩
  · rintro absent wanted - root member source ⟨names, nonempty, below⟩
    rw [place wanted root member] at below
    have file := (isFile wanted root member).1 source
    rw [below] at file
    exact absent names nonempty file root member wanted below

/-! ## Secondary sources -/

theorem dueCommands_of_listed {files : List Path} {notices : List Notice}
    (listed : filled.distinctFiles (plan.sources.roots ++ plan.sources.files) =
      (.ok files, notices)) :
    dueCommands settings options plan filled =
      (unitsFor plan.classpath plan.target (options.policy.shares files)).flatMap
        (CompileUnit.commands settings) := by
  rw [dueCommands, listed]

/-- Whether the file at a place is covered does not depend on how it is spelled. -/
theorem covers_below
    {base target : Path} {inner : List String} (policy : SecondaryPolicy) (files : List Path)
    (nonempty : names ≠ []) (plainNames : ∀ name ∈ names, PlainName name)
    (innerNonempty : inner ≠ []) (innerPlain : ∀ name ∈ inner, PlainName name)
    (place : placeOf base ++ names = placeOf target ++ inner) :
    policy.covers files (base.below names) = policy.covers files (target.below inner) := by
  have last := congrArg List.getLast? place
  rw [List.getLast?_append_of_ne_nil _ nonempty,
    List.getLast?_append_of_ne_nil _ innerNonempty] at last
  refine SecondaryPolicy.covers_of_fileName? _ _ ?_
  rw [fileName?_below nonempty plainNames, fileName?_below innerNonempty innerPlain, last]

theorem exists_command_of_covers
    (settings : CompileSettings) {files : List Path} {notices : List Notice} {file : Path}
    (listed : filled.distinctFiles (plan.sources.roots ++ plan.sources.files) =
      (.ok files, notices))
    (member : file ∈ files) (covered : options.policy.covers files file = true) :
    ∃ command ∈ dueCommands settings options plan filled,
      file.text ∈ command.fileArguments settings := by
  have once :
      ((unitsFor plan.classpath plan.target (options.policy.shares files)).flatMap
        (CompileUnit.commands settings)).countP (Command.emits settings file) = 1 :=
    countP_emits_commands (share_unitsFor _ _ _) member covered
  rw [dueCommands_of_listed listed]
  obtain ⟨command, inCommands, emits⟩ := List.countP_pos_iff.1 (by rw [once]; exact Nat.one_pos)
  rw [Command.emits, Bool.and_eq_true, decide_eq_true_eq] at emits
  exact ⟨command, inCommands, emits.1⟩

/-- A listed file below the target stands there, under its own name. -/
theorem of_isBelow_of_listed
    (nested : Nested plan) (anchored : Anchored plan) (plain : filled.tree.Plain)
    {files : List Path} {notices : List Notice} {file : Path}
    (listed : filled.distinctFiles (plan.sources.roots ++ plan.sources.files) =
      (.ok files, notices))
    (member : file ∈ files) (below : IsBelow plan.target file) (policy : SecondaryPolicy) :
    ∃ names, names ≠ [] ∧ filled.tree.HoldsFile (placeOf plan.target ++ names) ∧
      policy.covers files file = policy.covers files (plan.target.below names) := by
  obtain ⟨inner, innerNonempty, place⟩ := below
  obtain ⟨source, inSources, contributed⟩ :=
    exists_source_of_mem_distinctFiles plain anchored.sources listed member
  rw [listedFiles] at contributed
  split at contributed
  · next directory =>
      -- the file has been met in a walk, and its names may spell the target in another way
      obtain ⟨location, leads⟩ := isDirectory_iff_leadsToDirectory.1 directory
      have isPlace := eq_placeOf_of_leadsToDirectory plain (anchored.sources source inSources) leads
      subst isPlace
      obtain ⟨names, inNames, rfl⟩ := List.mem_map.1 contributed
      have plainNames := plainName_of_mem_fileNames plain.toWellFormed inNames
      have held := (mem_fileNames_iff plain.toWellFormed).1 inNames
      have nonempty : names ≠ [] := by
        rintro rfl
        exact nil_notMem_fileNames plain.toWellFormed
          leads.holdsDirectory inNames
      rw [placeOf_below source plainNames] at place
      rw [place] at held
      have innerPlain := plain.plainName_of_holdsFile held
      exact ⟨inner, innerNonempty, held,
        covers_below policy files nonempty plainNames innerNonempty innerPlain place⟩
  · split at contributed
    -- a source that is a file is listed itself, and no source lies below the target
    · rw [List.mem_singleton.1 contributed] at place
      rcases List.mem_append.1 inSources with inRoots | inFiles
      · exact absurd (place ▸ List.prefix_append _ _) (nested.outside source inRoots)
      · exact absurd ⟨inner, innerNonempty, place⟩ (nested.files source inFiles)
    · cases contributed

/-- What stands below the target is listed, in some spelling. -/
theorem exists_listed_below
    (nested : Nested plan) (anchored : Anchored plan) (plain : filled.tree.Plain)
    {files : List Path} {notices : List Notice}
    (listed : filled.distinctFiles (plan.sources.roots ++ plan.sources.files) =
      (.ok files, notices))
    (nonempty : names ≠ []) (held : filled.tree.HoldsFile (placeOf plan.target ++ names))
    (policy : SecondaryPolicy) :
    ∃ file ∈ files, IsBelow plan.target file ∧
      policy.covers files file = policy.covers files (plan.target.below names) := by
  obtain ⟨root, inRoots, initial, isPlace⟩ := nested.inside
  have absolute := anchored.ofRoot inRoots
  have place : placeOf root ++ (initial ++ names) = placeOf plan.target ++ names := by
    rw [← isPlace, List.append_assoc]
  have held' := held
  rw [← place] at held'
  have plainNames := plain.plainName_of_holdsFile held'
  have namesPlain := plain.plainName_of_holdsFile held
  have onward : initial ++ names ≠ [] := by simp [nonempty]
  have leads :=
    leadsToDirectory_of_onward plain absolute (nested.rootOnward inRoots) onward held'
  obtain ⟨kept, inFiles, same, samePlace⟩ :=
    exists_same_of_mem_listedFiles plain anchored.sources listed
      (List.mem_append_left _ inRoots) ((mem_listedFiles_iff plain leads).2 ⟨_, held', rfl⟩)
  refine ⟨kept, inFiles, ⟨names, nonempty, ?_⟩, ?_⟩
  · rw [samePlace, placeOf_below _ plainNames, place]
  · rw [SecondaryPolicy.covers_of_fileName? policy files (fileName?_of_same same)]
    exact covers_below policy files onward plainNames nonempty namesPlain place

/-- No command gets a file below the target, exactly if none there is covered by the policy. -/
theorem delegation_spares_iff
    (settings : CompileSettings) (nested : Nested plan) (anchored : Anchored plan)
    (plain : filled.tree.Plain) :
    (∀ command ∈ dueCommands settings options plan filled,
        ∀ argument ∈ command.fileArguments settings, ¬ IsBelow plan.target ⟨argument⟩) ↔
      ∀ files notices,
        filled.distinctFiles (plan.sources.roots ++ plan.sources.files) = (.ok files, notices) →
          ∀ names, names ≠ [] → filled.tree.HoldsFile (placeOf plan.target ++ names) →
            options.policy.covers files (plan.target.below names) = false := by
  constructor
  · intro spared files notices listed names nonempty held
    obtain ⟨file, member, below, same⟩ :=
      exists_listed_below nested anchored plain listed nonempty held options.policy
    rw [← same]
    by_contra covered
    obtain ⟨command, due, argument⟩ :=
      exists_command_of_covers settings listed member (by simpa using covered)
    exact spared command due file.text argument below
  · intro uncovered command due argument inArguments below
    have listed := distinctFiles_eq plain anchored.sources
    rw [dueCommands_of_listed listed] at due
    obtain ⟨pass, rfl, part, held⟩ :=
      exists_pass_of_mem_commands (share_unitsFor _ _ (options.policy.shares _)) due
    rw [CompileUnit.fileArguments_command] at inArguments
    obtain ⟨file, inPass, rfl⟩ := List.mem_map.1 inArguments
    obtain ⟨names, nonempty, stands, same⟩ :=
      of_isBelow_of_listed nested anchored plain listed (part.subset inPass) below options.policy
    have covered := (held file inPass).2
    rw [same, uncovered _ _ listed names nonempty stands] at covered
    cases covered

/-! ## Whole builds -/

/-- No file below the target has been a source of a build with a plan and commands: no namespace has
been read off one, no pass over a root copies one, and no secondary compiler has got one. -/
structure SparesOutput (settings : CompileSettings) (options : BuildOptions) (start : Workspace)
    (plan : Plan) (commands : List Command) : Prop where
  detection : options.libs = none →
    ∀ wanted ∈ plan.namespaces, ∀ root ∈ plan.sources.roots,
      start.isFile (root.join wanted.sourcePath) = true →
        ¬ IsBelow plan.target (root.join wanted.sourcePath)
  copying : ∀ between : Workspace, between.tree.Plain →
    ∀ root ∈ plan.sources.roots, between.isDirectory root = true →
      ∀ files notices, between.walk root (some plan.target) = (.ok files, notices) →
        ∀ copy ∈ resourcesBelow root plan.target plan.namespaces files,
          ¬ IsBelow plan.target copy.2
  delegation : ∀ command ∈ commands, ¬ Batch.IsCommand command →
    ∀ argument ∈ command.fileArguments settings, ¬ IsBelow plan.target ⟨argument⟩

/-- Nothing below the target looks like a source: no file there is the source of a namespace when
namespaces are detected, and the policy covers none of the files that are there when secondary
sources are listed. -/
structure OutOfSight (options : BuildOptions) (start filled : Workspace) (plan : Plan) : Prop where
  namespaces : options.libs = none →
    ∀ names, names ≠ [] → start.tree.HoldsFile (placeOf plan.target ++ names) →
      ∀ root ∈ plan.sources.roots, ∀ defined : Namespace,
        placeOf root ++ defined.sourceNames ≠ placeOf plan.target ++ names
  secondary : ∀ files notices,
    filled.distinctFiles (plan.sources.roots ++ plan.sources.files) = (.ok files, notices) →
      ∀ names, names ≠ [] → filled.tree.HoldsFile (placeOf plan.target ++ names) →
        options.policy.covers files (plan.target.below names) = false

theorem copying_spares
    (nested : Nested plan) (anchored : Anchored plan) {between : Workspace}
    (plain : between.tree.Plain) (member : root ∈ plan.sources.roots)
    (directory : between.isDirectory root = true) {files : List Path} {notices : List Notice}
    (walked : between.walk root (some plan.target) = (.ok files, notices)) {copy : Path × Path}
    (copied : copy ∈ resourcesBelow root plan.target plan.namespaces files) :
    ¬ IsBelow plan.target copy.2 := by
  have absolute := anchored.ofRoot member
  obtain ⟨location, leads⟩ := isDirectory_iff_leadsToDirectory.1 directory
  rw [walk_eq plain _ leads (same_standardInput_of_isAbsolute absolute)] at walked
  cases walked
  obtain ⟨file, inFiles, isCopy⟩ := List.mem_filterMap.1 copied
  obtain ⟨relative, -, kept⟩ := Option.bind_eq_some_iff.1 isCopy
  split at kept
  · cases kept
  · cases kept
    obtain ⟨names, filtered, rfl⟩ := List.mem_map.1 inFiles
    obtain ⟨inNames, avoided⟩ := List.mem_filter.1 filtered
    exact nested.not_isBelow_of_avoids anchored member
      (plainName_of_mem_fileNames plain.toWellFormed inNames) avoided

theorem anchored_of_readPlan
    {tools : Tools} {sources : List Path} {target : Path} {dependencies : List Dependency}
    (read : readPlan tools sources target dependencies options start = .ok plan) :
    Anchored plan := by
  obtain ⟨form, sorts, -⟩ := readPlan_eq_ok_iff.1 read
  have sorted := sorted_of_foldlM sorts
  refine ⟨isAbsolute_of_absolute form, fun source member => ?_⟩
  rcases List.mem_append.1 member with inRoots | inFiles
  · obtain ⟨-, other, -, isForm⟩ := sorted.roots source inRoots
    exact isAbsolute_of_absolute isForm
  · obtain ⟨-, other, -, isForm⟩ := sorted.files source inFiles
    exact isAbsolute_of_absolute isForm

theorem not_isCommand_of_mem_dueCommands {command : Command}
    (due : command ∈ dueCommands settings options plan filled) : ¬ Batch.IsCommand command := by
  rw [dueCommands] at due
  split at due
  · obtain ⟨unit, -, inCommands⟩ := List.mem_flatMap.1 due
    exact Batch.not_isCommand_of_outputs (CompileUnit.outputs_of_mem_commandsAs inCommands)
  · cases due

/-- A build without links whose target lies inside a root treats no file below its target as a source
if and only if none there looks like one: copying passes leave the target out, but detection and
delegation do not. -/
theorem output_is_spared_iff_out_of_sight
    {tools : Tools} {sources : List Path} {target : Path} {dependencies : List Dependency}
    {planned filled : Progress} {value : Bool × List ResourceReport} {report : BuildReport}
    (programs : tools.compilers = compilerPrograms tools.runner settings)
    (plain : start.tree.Plain)
    (planning : (makePlan tools sources target dependencies options).on start = (.ok plan, planned))
    (nested : Nested plan)
    (filling : (fillTarget tools plan).after planned = (.ok value, filled))
    (plainFilled : filled.workspace.tree.Plain)
    (done : ((compile tools sources target dependencies options).on start).1 = .ok report) :
    SparesOutput settings options start plan
        ((compile tools sources target dependencies options).on start).2.commands ↔
      OutOfSight options start filled.workspace plan := by
  obtain ⟨read, -, -⟩ :=
    (reads_makePlan tools sources target dependencies options).of_after_eq_ok planning
  have anchored : Anchored plan := anchored_of_readPlan read
  obtain ⟨-, -, chosen, -, -⟩ := readPlan_eq_ok_iff.1 read
  rw [commands_of_ok programs planning filling done]
  constructor
  · intro spares
    refine ⟨fun detects => ?_, ?_⟩
    · exact (detection_spares_iff anchored plain detects chosen).1 (spares.detection detects)
    · refine (delegation_spares_iff settings nested anchored plainFilled).1 ?_
      intro command due
      exact spares.delegation command (List.mem_append_right _ due)
        (not_isCommand_of_mem_dueCommands due)
  · intro outOfSight
    refine
      { detection := fun detects => ?_
        copying := ?_
        delegation := ?_ }
    · exact (detection_spares_iff anchored plain detects chosen).2 (outOfSight.namespaces detects)
    · intro between plainBetween root member directory files notices walked copy copied
      exact copying_spares nested anchored plainBetween member directory walked copied
    · intro command member noBatch
      rcases List.mem_append.1 member with inBatch | due
      · have isBatch := (commands_batchOccasions _ _ _).subset inBatch
        rw [List.mem_singleton.1 isBatch] at noBatch
        exact absurd (Batch.isCommand_command _ _ _ _) noBatch
      · have spared :=
          (delegation_spares_iff settings nested anchored plainFilled).2 outOfSight.secondary
        exact spared command due

/-! ## A target inside the only root -/

/-- A root that holds one file. -/
def rootWith (name : String) : Workspace :=
  ⟨⟨[([], .directory ⟨0⟩), (["src"], .directory ⟨0⟩), (["src", name], .file [] ⟨0⟩ 420)]⟩, [],
    ⟨"/home"⟩, ⟨0⟩, []⟩

/-- The options of a build that detects its namespaces. -/
def detecting : BuildOptions :=
  ⟨none, .firstMatch⟩

/-- The plan of a build of this root into a directory inside it. -/
def nestedPlan : Plan where
  target := ⟨"/src/out"⟩
  sources := ⟨[⟨"/src"⟩], []⟩
  namespaces := []
  definitions := []
  classpath := (Classpath.ofList [⟨"/src"⟩]).endingIn ⟨"/clj.jar"⟩

theorem nested_nestedPlan : Nested nestedPlan where
  onward := by
    have fileNames : ∀ path ∈ nestedPlan.target :: nestedPlan.sources.roots,
        ∀ step ∈ path.steps, FileName step := by
      decide +kernel
    exact fun path member step inSteps => (fileNames path member step inSteps).toPlainName
  inside := ⟨⟨"/src"⟩, List.mem_singleton_self _, by decide +kernel⟩
  outside := by
    intro root member
    rw [List.mem_singleton.1 member]
    decide +kernel
  files := by
    intro file member
    cases member

theorem planning_eq_nestedPlan (start : Workspace)
    (fields :
      ((makePlan (toolsOf idleRunner) [⟨"src"⟩] ⟨"src/out"⟩ [] detecting).on start).1.toOption.map
        (fun plan => (plan.target, plan.sources, plan.namespaces, plan.definitions,
          plan.classpath)) =
        some (nestedPlan.target, nestedPlan.sources, [], [], nestedPlan.classpath))
    (quiet : ((makePlan (toolsOf idleRunner) [⟨"src"⟩] ⟨"src/out"⟩ [] detecting).on
      start).2.notices = []) :
    (makePlan (toolsOf idleRunner) [⟨"src"⟩] ⟨"src/out"⟩ [] detecting).on start =
      (.ok nestedPlan, Progress.start start) := by
  have reads := reads_makePlan (toolsOf idleRunner) [⟨"src"⟩] ⟨"src/out"⟩ [] detecting
  cases planning :
      (makePlan (toolsOf idleRunner) [⟨"src"⟩] ⟨"src/out"⟩ [] detecting).on start with
  | mk outcome planned =>
      rw [planning] at fields quiet
      cases outcome with
      | error failure =>
          cases fields
      | ok plan =>
          obtain ⟨-, sameWorkspace, noCommands⟩ := reads.of_after_eq_ok planning
          obtain ⟨target, sources, namespaces, definitions, classpath⟩ := plan
          obtain ⟨workspace, commands, notices⟩ := planned
          simp only [Except.toOption, Option.map_some, Option.some.injEq, Prod.mk.injEq] at fields
          obtain ⟨rfl, rfl, rfl, rfl, rfl⟩ := fields
          simp only at sameWorkspace noCommands quiet
          rw [sameWorkspace, noCommands, quiet]
          rfl

theorem exists_eq_ok_of_isSome {ε α : Type} {result : Except ε α}
    (some : result.toOption.isSome = true) : ∃ value, result = .ok value := by
  cases result with
  | error failure =>
      cases some
  | ok value =>
      exact ⟨value, rfl⟩

/-- A resource of the root is copied into the target, and nothing there is taken for a source. -/
theorem resource_is_no_source :
    ∃ planned filled value report,
      (makePlan (toolsOf idleRunner) [⟨"src"⟩] ⟨"src/out"⟩ [] detecting).on (rootWith "r") =
          (.ok nestedPlan, planned) ∧
        (fillTarget (toolsOf idleRunner) nestedPlan).after planned = (.ok value, filled) ∧
          filled.workspace.tree.HoldsFile ["src", "out", "r"] ∧
            ((compile (toolsOf idleRunner) [⟨"src"⟩] ⟨"src/out"⟩ [] detecting).on
                (rootWith "r")).1 = .ok report ∧
              SparesOutput .default detecting (rootWith "r") nestedPlan
                ((compile (toolsOf idleRunner) [⟨"src"⟩] ⟨"src/out"⟩ [] detecting).on
                  (rootWith "r")).2.commands := by
  have plain : (rootWith "r").tree.Plain := by
    decide +kernel
  have planning := planning_eq_nestedPlan (rootWith "r") (by decide +kernel)
    (by decide +kernel)
  have succeeds :
      ((compile (toolsOf idleRunner) [⟨"src"⟩] ⟨"src/out"⟩ [] detecting).on
        (rootWith "r")).1.toOption.isSome = true := by
    decide +kernel
  have fills :
      ((fillTarget (toolsOf idleRunner) nestedPlan).after
        (Progress.start (rootWith "r"))).1.toOption.isSome = true := by
    decide +kernel
  have plainFilled :
      ((fillTarget (toolsOf idleRunner) nestedPlan).after
        (Progress.start (rootWith "r"))).2.workspace.tree.Plain := by
    decide +kernel
  have copied :
      ((fillTarget (toolsOf idleRunner) nestedPlan).after
        (Progress.start (rootWith "r"))).2.workspace.tree.find? ["src", "out", "r"] =
          some (.file [] ⟨2⟩ 420) := by
    decide +kernel
  have listing :
      ((fillTarget (toolsOf idleRunner) nestedPlan).after
        (Progress.start (rootWith "r"))).2.workspace.distinctFiles [⟨"/src"⟩] =
          (.ok [⟨"/src/out/r"⟩, ⟨"/src/r"⟩], []) := by
    decide +kernel
  have programs : (toolsOf idleRunner).compilers =
      compilerPrograms (toolsOf idleRunner).runner CompileSettings.default :=
    rfl
  obtain ⟨report, done⟩ := exists_eq_ok_of_isSome succeeds
  cases filling :
      (fillTarget (toolsOf idleRunner) nestedPlan).after (Progress.start (rootWith "r")) with
  | mk outcome filled =>
      rw [filling] at fills plainFilled copied listing
      obtain ⟨value, isValue⟩ := exists_eq_ok_of_isSome fills
      simp only at isValue plainFilled copied listing
      subst isValue
      have outOfSight : OutOfSight detecting (rootWith "r") filled.workspace nestedPlan := by
        refine ⟨fun _ names nonempty held => ?_, fun files notices listed names _ _ => ?_⟩
        · have place : placeOf nestedPlan.target = ["src", "out"] := by
            decide +kernel
          obtain ⟨content, modified, mode, found⟩ := held
          rw [place] at found
          simp [rootWith, FileTree.find?, List.lookup_cons] at found
        · have sameList : filled.workspace.distinctFiles
              (nestedPlan.sources.roots ++ nestedPlan.sources.files) = _ := listing
          rw [sameList] at listed
          cases listed
          have nobody : Language.foremost? [⟨"/src/out/r"⟩, ⟨"/src/r"⟩] = none := by
            decide +kernel
          simp [detecting, SecondaryPolicy.covers, nobody]
      refine ⟨_, filled, value, report, planning, filling, ⟨_, _, _, copied⟩, done, ?_⟩
      exact (output_is_spared_iff_out_of_sight programs plain planning nested_nestedPlan filling
        plainFilled done).2 outOfSight

/-- No build treats a file below its target as a source. -/
def OutputIsNeverInput : Prop :=
  ∀ (tools : Tools) (settings : CompileSettings) (sources : List Path) (target : Path)
      (dependencies : List Dependency) (options : BuildOptions) (start : Workspace) (plan : Plan)
      (planned : Progress) (report : BuildReport),
    tools.compilers = compilerPrograms tools.runner settings → start.tree.Plain →
      (makePlan tools sources target dependencies options).on start = (.ok plan, planned) →
        Nested plan →
          ((compile tools sources target dependencies options).on start).1 = .ok report →
            SparesOutput settings options start plan
              ((compile tools sources target dependencies options).on start).2.commands

/-- A file that is compiled is copied into the target before, and its copy is compiled with it. -/
theorem copies_are_compiled : ¬ OutputIsNeverInput := by
  intro never
  have plain : (rootWith "A.java").tree.Plain := by
    decide +kernel
  have planning := planning_eq_nestedPlan (rootWith "A.java") (by decide +kernel)
    (by decide +kernel)
  have succeeds :
      ((compile (toolsOf idleRunner) [⟨"src"⟩] ⟨"src/out"⟩ [] detecting).on
        (rootWith "A.java")).1.toOption.isSome = true := by
    decide +kernel
  have commands :
      ((compile (toolsOf idleRunner) [⟨"src"⟩] ⟨"src/out"⟩ [] detecting).on
        (rootWith "A.java")).2.commands =
          [⟨"javac", ["-classpath", "/src:/clj.jar", "-d", "/src/out", "/src/A.java",
            "/src/out/A.java"]⟩] := by
    decide +kernel
  obtain ⟨report, done⟩ := exists_eq_ok_of_isSome succeeds
  have spares := never (toolsOf idleRunner) .default [⟨"src"⟩] ⟨"src/out"⟩ [] detecting
    (rootWith "A.java") nestedPlan _ report rfl plain planning nested_nestedPlan done
  have below : IsBelow nestedPlan.target ⟨"/src/out/A.java"⟩ :=
    ⟨["A.java"], by simp, by decide +kernel⟩
  rw [commands] at spares
  refine spares.delegation _ List.mem_cons_self (Batch.not_isCommand_of_outputs rfl)
    "/src/out/A.java" ?_ below
  decide +kernel

end Build

end ClojureBuild
