import ClojureBuild.Proofs.Build.Preparation
import ClojureBuild.Proofs.Build.Repetition
import ClojureBuild.Proofs.Path.Order
import Mathlib.Data.List.Perm.Basic

/-!
# What the passes cover

A file below a root is the source of a compiled namespace, and then the pass over the root does not
touch its place below the target, or it is listed once by that pass, as copied or as unchanged.  Both
lists keep the order of the roots and of the walks.
-/

namespace ClojureBuild

open Workspace

namespace ResourceReport

variable {α : Type} {destinations others : List Path} {pass next : ResourceReport}

/-- A report lists destinations, each of them once and in order, as copied or as unchanged. -/
structure Lists (destinations : List Path) (pass : ResourceReport) : Prop where
  copied : pass.copied.Sublist destinations
  unchanged : pass.unchanged.Sublist destinations
  all : (pass.copied ++ pass.unchanged).Perm destinations

namespace Lists

theorem append (first : Lists destinations pass) (second : Lists others next) :
    Lists (destinations ++ others) (pass.append next) where
  copied := first.copied.append second.copied
  unchanged := first.unchanged.append second.unchanged
  all := by
    -- the copied paths of the second pass change places with the unchanged ones of the first
    have swapped :
        (pass.append next).copied ++ (pass.append next).unchanged =
          pass.copied ++ (next.copied ++ (pass.unchanged ++ next.unchanged)) := by
      simp [ResourceReport.append]
    have grouped :
        pass.copied ++ (pass.unchanged ++ (next.copied ++ next.unchanged)) =
          (pass.copied ++ pass.unchanged) ++ (next.copied ++ next.unchanged) := by
      simp
    have exchange :
        (next.copied ++ (pass.unchanged ++ next.unchanged)).Perm
          (pass.unchanged ++ (next.copied ++ next.unchanged)) := by
      have adjacent : (next.copied ++ pass.unchanged).Perm (pass.unchanged ++ next.copied) :=
        List.perm_append_comm
      simpa only [← List.append_assoc] using adjacent.append_right next.unchanged
    rw [swapped]
    exact (exchange.append_left pass.copied).trans (grouped ▸ first.all.append second.all)

/-- Passes that list destinations, taken together, list all of them. -/
theorem ofPasses
    {items : List α} {passes : List ResourceReport} {wanted : α → List Path}
    (each : List.Forall₂ (fun item pass => Lists (wanted item) pass) items passes) :
    Lists (items.flatMap wanted) (ResourceReport.ofPasses passes) := by
  rw [ofPasses_eq]
  induction each with
  | nil =>
      exact ⟨List.Sublist.refl [], List.Sublist.refl [], List.Perm.refl []⟩
  | cons one _ inductionHypothesis =>
      exact one.append inductionHypothesis

end Lists

end ResourceReport

namespace Build

open ResourceReport

variable {α β : Type} {step : α → Build β} {items : List α} {results : List β}
variable {ready : Workspace} {before after : Progress} {root target : Path} {layout : Layout}
variable {excluded : List Namespace} {pass : ResourceReport} {names inner : List String}
variable {place location : Location} {progress later : Progress} {entry : Entry}
variable {hindrances : Hindrances}

/-! ## Steps for the items of a list -/

theorem forall₂_of_after_mapM
    {invariant : Progress → Prop} {good : α → β → Prop}
    (keeps : ∀ item ∈ items, Keeps invariant (step item))
    (each : ∀ item ∈ items, ∀ {result reached next}, invariant reached →
      (step item).after reached = (.ok result, next) → good item result)
    (held : invariant progress) (done : (items.mapM step).after progress = (.ok results, later)) :
    List.Forall₂ good items results := by
  induction items generalizing progress results with
  | nil =>
      rw [after_mapM_nil, Prod.mk.injEq, Except.ok.injEq] at done
      rw [← done.1]
      exact List.Forall₂.nil
  | cons item rest inductionHypothesis =>
      obtain ⟨first, middle, others, one, behind, rfl⟩ := after_mapM_cons_eq_ok_iff.1 done
      have heldLater := keeps item List.mem_cons_self progress held
      rw [one] at heldLater
      refine List.Forall₂.cons (each item List.mem_cons_self held one) ?_
      exact inductionHypothesis
        (fun other member => keeps other (List.mem_cons_of_mem item member))
        (fun other member => each other (List.mem_cons_of_mem item member)) heldLater behind

/-- The step for one item of a list, between the steps for those in front of it and the others. -/
theorem after_mapM_append_cons_eq_ok
    {front rest : List α} {item : α}
    (done : ((front ++ item :: rest).mapM step).after progress = (.ok results, later)) :
    ∃ earlier reached result next others,
      (front.mapM step).after progress = (.ok earlier, reached) ∧
        (step item).after reached = (.ok result, next) ∧
          (rest.mapM step).after next = (.ok others, later) ∧
            results = earlier ++ result :: others := by
  induction front generalizing progress results with
  | nil =>
      obtain ⟨first, middle, others, one, behind, rfl⟩ := after_mapM_cons_eq_ok_iff.1 done
      exact ⟨[], progress, first, middle, others, rfl, one, behind, rfl⟩
  | cons head front inductionHypothesis =>
      obtain ⟨first, middle, others, one, behind, rfl⟩ := after_mapM_cons_eq_ok_iff.1 done
      obtain ⟨earlier, reached, result, next, remaining, front, here, back, rfl⟩ :=
        inductionHypothesis behind
      exact ⟨first :: earlier, reached, result, next, remaining,
        after_mapM_cons_eq_ok_iff.2 ⟨first, middle, earlier, one, front, rfl⟩, here, back, rfl⟩

/-! ## One pass -/

/-- Where the files below a root go that are no excluded sources, in the order of a walk. -/
def destinations (workspace : Workspace) (root target : Path) (excluded : List Namespace) :
    List Path :=
  ((workspace.fileNames (placeOf root)).filter (isResource excluded)).map target.below

theorem isResource_eq_false_iff :
    isResource excluded names = false ↔
      ∃ defined ∈ excluded,
        Namespace.ofSourcePath? ⟨Text.joinWith "/" names⟩ = some defined := by
  rw [isResource, Bool.not_eq_false']
  cases Namespace.ofSourcePath? ⟨Text.joinWith "/" names⟩ with
  | none =>
      simp
  | some defined =>
      simp

/-- A resource that has been refreshed is listed once. -/
theorem lists_of_refreshResource
    {destination source : Path}
    (refreshed : (refreshResource hindrances destination source).after progress = (.ok pass, later)) :
    Lists [destination] pass := by
  rw [refreshResource, after_bind_of_ok (after_get progress)] at refreshed
  obtain ⟨fresh, reached, -, refreshed⟩ := after_bind_eq_ok_iff.1 refreshed
  split at refreshed
  · cases refreshed
    exact ⟨List.nil_sublist _, List.Sublist.refl _, List.Perm.refl _⟩
  · obtain ⟨value, copied, -, ended⟩ := after_bind_eq_ok_iff.1 refreshed
    cases ended
    exact ⟨List.Sublist.refl _, List.nil_sublist _, List.Perm.refl _⟩

/-- The walk over a root does not come upon the target, so it finds all files below the root. -/
theorem filter_avoids_of_root
    {workspace : Workspace} (plain : workspace.tree.Plain)
    (targetPlace : placeOf target = layout.target) (isRoot : layout.Root (placeOf root)) :
    (workspace.fileNames (placeOf root)).filter (avoids (some target) root) =
      workspace.fileNames (placeOf root) := by
  rw [List.filter_eq_self]
  intro names member
  exact avoids_of_root targetPlace isRoot
    (plainName_of_mem_fileNames plain.toWellFormed member)

/-- A resource that is refreshed does not touch what is at other names below the target, unless a
directory is needed there. -/
theorem Refreshed.find?_eq
    {destination : Path} {result : Except BuildError ResourceReport × Progress}
    (refreshed : Refreshed place inner destination entry progress result)
    (notNeeded : ¬ Needed place inner (place ++ names)) (differs : names ≠ inner) :
    result.2.workspace.tree.find? (place ++ names) =
      progress.workspace.tree.find? (place ++ names) := by
  cases refreshed with
  | upToDate fresh =>
      rfl
  | copied only isFile directory noDirectory stale =>
      have elsewhere : place ++ names ≠ place ++ inner :=
        fun same => differs (List.append_cancel_left same)
      exact (find?_written_of_ne elsewhere).trans (only.find?_eq notNeeded)
  | failed only =>
      exact only.find?_eq notNeeded
  | undone only =>
      exact only.find?_eq notNeeded
  | unfinished only isFile directory noDirectory stale =>
      have elsewhere : place ++ names ≠ place ++ inner :=
        fun same => differs (List.append_cancel_left same)
      exact (find?_written_of_ne elsewhere).trans (only.find?_eq notNeeded)

/-- No file lies below another one. -/
theorem not_longer_of_files
    {tree : FileTree} (plain : tree.Plain) (file : tree.HoldsFile (location ++ names))
    (other : tree.HoldsFile (location ++ inner)) : ¬ ∃ rest, rest ≠ [] ∧ inner = names ++ rest := by
  rintro ⟨rest, nonempty, rfl⟩
  obtain ⟨content, modified, mode, found⟩ := other
  rw [← List.append_assoc, plain.find?_append_of_holdsFile nonempty file] at found
  cases found

/-- No directory is needed where the copy of another file below the same root would be. -/
theorem not_needed_of_files
    {tree : FileTree} (plain : tree.Plain) (file : tree.HoldsFile (location ++ names))
    (other : tree.HoldsFile (location ++ inner)) : ¬ Needed place inner (place ++ names) :=
  fun needed => not_longer_of_files plain file other (longer_of_needed needed)

/-- What a pass over a root does for the files below it: those that are excluded sources are not
listed and what stands at their places below the target is not touched, all others are listed once.
The walk of the pass finds the files that there were below the root when the passes began. -/
structure Covers (root target : Path) (excluded : List Namespace) (ready before after : Workspace)
    (pass : ResourceReport) : Prop where
  walked : before.walk root (some target) =
    (.ok ((ready.fileNames (placeOf root)).map root.below), [])
  lists : Lists (destinations ready root target excluded) pass
  compiled : ∀ names defined, ready.tree.HoldsFile (placeOf root ++ names) →
    Namespace.ofSourcePath? ⟨Text.joinWith "/" names⟩ = some defined → defined ∈ excluded →
      (∀ listed ∈ pass.copied ++ pass.unchanged, (target.below names).same listed = false) ∧
        after.tree.find? (placeOf target ++ names) = before.tree.find? (placeOf target ++ names)
  mirrored : ∀ names, ready.tree.HoldsFile (placeOf root ++ names) →
    (∀ defined ∈ excluded,
      Namespace.ofSourcePath? ⟨Text.joinWith "/" names⟩ ≠ some defined) →
      (pass.copied ++ pass.unchanged).countP (target.below names).same = 1

/-- Every name of a file below a root is listed as often as it is a resource. -/
theorem countP_destinations
    {workspace : Workspace} (plain : workspace.tree.Plain)
    (file : workspace.tree.HoldsFile (placeOf root ++ names)) :
    (destinations workspace root target excluded).countP (target.below names).same =
      if isResource excluded names = true then 1 else 0 := by
  have plainNames := plain.plainName_of_holdsFile file
  have listed := (mem_fileNames_iff plain.toWellFormed).2 file
  have once : ((workspace.fileNames (placeOf root)).filter (isResource excluded)).Nodup :=
    (fileNames_nodup plain.toWellFormed _).filter _
  have asNames :
      ((workspace.fileNames (placeOf root)).filter (isResource excluded)).countP
          ((target.below names).same ∘ target.below) =
        ((workspace.fileNames (placeOf root)).filter (isResource excluded)).count names := by
    rw [List.count]
    apply List.countP_congr
    intro other member
    have otherNames :=
      plainName_of_mem_fileNames plain.toWellFormed (List.mem_filter.1 member).1
    rw [Function.comp_apply, target.below_same_iff plainNames otherNames, beq_iff_eq, eq_comm]
  rw [destinations, List.countP_map, asNames]
  split
  · next included =>
      exact List.count_eq_one_of_mem once (List.mem_filter.2 ⟨listed, included⟩)
  · next isExcluded =>
      rw [List.count_eq_zero]
      intro member
      exact isExcluded (List.mem_filter.1 member).2

/-- A pass over a root leaves alone what stands at the names of an excluded source. -/
theorem find?_of_copyResources
    (plain : before.workspace.tree.Plain)
    (leads : before.workspace.LeadsToDirectory target place) (rootAbsolute : root.isAbsolute = true)
    (file : before.workspace.tree.HoldsFile (placeOf root ++ names))
    (isExcluded : isResource excluded names = false)
    (passed : (copyResources hindrances root target excluded).after before = (.ok pass, after)) :
    after.workspace.tree.find? (place ++ names) =
      before.workspace.tree.find? (place ++ names) := by
  have rootLeads := leads_of_copyResources plain rootAbsolute passed
  rw [after_copyResources plain rootLeads (same_standardInput_of_isAbsolute rootAbsolute)] at passed
  obtain ⟨passes, final, refreshing, ended⟩ := after_bind_eq_ok_iff.1 passed
  rw [after_pure, Prod.mk.injEq] at ended
  obtain ⟨-, rfl⟩ := ended
  have keeps :
      Keeps
        (fun reached => Filled place before.workspace reached.workspace ∧
          reached.workspace.tree.find? (place ++ names) =
            before.workspace.tree.find? (place ++ names))
        ((before.workspace.resourceNames root (placeOf root) target excluded).mapM
          fun names => refreshResource hindrances (target.below names) (root.below names)) := by
    apply Keeps.mapM
    rintro other member reached ⟨filled, same⟩
    obtain ⟨otherFile, -, included⟩ := (mem_resourceNames_iff plain.toWellFormed).1 member
    obtain ⟨nonempty, fileNames, content, modified, mode, -, refreshed⟩ :=
      refreshed_of_filled plain leads rootLeads otherFile filled
    have differs : names ≠ other := by
      rintro rfl
      rw [isExcluded] at included
      cases included
    refine ⟨filled.trans (refreshed.filled filled.plain nonempty fileNames), ?_⟩
    exact (refreshed.find?_eq (not_needed_of_files plain file otherFile) differs).trans same
  have kept := keeps before ⟨Filled.refl plain place, rfl⟩
  rw [refreshing] at kept
  exact kept.2

theorem lists_of_copyResources
    (plain : before.workspace.tree.Plain)
    (targetPlace : placeOf target = layout.target) (rootAbsolute : root.isAbsolute = true)
    (isRoot : layout.Root (placeOf root))
    (passed : (copyResources hindrances root target excluded).after before = (.ok pass, after)) :
    Lists (destinations before.workspace root target excluded) pass := by
  have rootLeads := leads_of_copyResources plain rootAbsolute passed
  rw [after_copyResources plain rootLeads (same_standardInput_of_isAbsolute rootAbsolute)] at passed
  obtain ⟨passes, final, refreshing, ended⟩ := after_bind_eq_ok_iff.1 passed
  cases ended
  have keeps :
      ∀ names ∈ before.workspace.resourceNames root (placeOf root) target excluded,
        Keeps (fun _ => True) (refreshResource hindrances (target.below names) (root.below names)) :=
    fun _ _ _ _ => trivial
  have each :
      List.Forall₂ (fun names pass => Lists [target.below names] pass)
        (before.workspace.resourceNames root (placeOf root) target excluded) passes :=
    forall₂_of_after_mapM keeps
      (fun _ _ _ _ _ _ refreshed => lists_of_refreshResource refreshed) trivial refreshing
  have whole := Lists.ofPasses each
  rwa [← List.map_eq_flatMap, resourceNames,
    filter_avoids_of_root plain targetPlace isRoot] at whole

/-- A pass that begins after others have filled the target covers the files that were there before
them. -/
theorem covers_copyResources
    (plain : ready.tree.Plain) (targetPlace : placeOf target = layout.target)
    (leads : ready.LeadsToDirectory target layout.target) (rootAbsolute : root.isAbsolute = true)
    (isRoot : layout.Root (placeOf root)) (filled : Filled layout.target ready before.workspace)
    (passed : (copyResources hindrances root target excluded).after before = (.ok pass, after)) :
    Covers root target excluded ready before.workspace after.workspace pass := by
  have sameNames : before.workspace.fileNames (placeOf root) = ready.fileNames (placeOf root) :=
    fileNames_of_sameFiles plain filled.plain filled.sameFiles isRoot
  have lists : Lists (destinations ready root target excluded) pass := by
    have listed :=
      lists_of_copyResources filled.plain targetPlace rootAbsolute isRoot passed
    rwa [destinations, sameNames] at listed
  refine ⟨?_, lists, ?_, ?_⟩
  · rw [walk_eq filled.plain (some target) (leads_of_copyResources filled.plain rootAbsolute passed)
      (same_standardInput_of_isAbsolute rootAbsolute),
      filter_avoids_of_root filled.plain targetPlace isRoot, sameNames]
  · intro names defined file spelled isCompiled
    have isExcluded := isResource_eq_false_iff.2 ⟨defined, isCompiled, spelled⟩
    constructor
    · have absent :
          (destinations ready root target excluded).countP (target.below names).same = 0 := by
        rw [countP_destinations plain file, isExcluded, if_neg Bool.false_ne_true]
      rw [← lists.all.countP_eq, List.countP_eq_zero] at absent
      intro listed member
      simpa using absent listed member
    · rw [targetPlace]
      exact find?_of_copyResources filled.plain (filled.leadsToDirectory plain leads) rootAbsolute
        ((filled.sameFiles.holdsFile_iff isRoot).2 file) isExcluded passed
  · intro names file isOther
    have included : isResource excluded names = true := by
      cases isResource? : isResource excluded names with
      | true =>
          rfl
      | false =>
          obtain ⟨defined, isCompiled, spelled⟩ := isResource_eq_false_iff.1 isResource?
          exact absurd spelled (isOther defined isCompiled)
    rw [lists.all.countP_eq, countP_destinations plain file, if_pos included]

/-! ## All passes -/

variable {start : Workspace} {project : Project} {tools : Tools} {dependencies : List Dependency}
variable {plan : Plan} {report : BuildReport} {passes : List ResourceReport}

/-- The passes that a build has made over the roots of its plan, after the target was ready for them,
and that its report is about. -/
structure PassesOf (tools : Tools) (project : Project) (dependencies : List Dependency)
    (start : Workspace) (report : BuildReport) (plan : Plan) (ready : Progress)
    (passes : List ResourceReport) : Prop where
  prepared : ∃ planned compiled,
    (makePlan tools project.sources project.target dependencies project.options).on start =
        (.ok plan, planned) ∧
      (prepareTarget tools plan).after planned = (.ok compiled, ready)
  passed : ∃ last,
    (plan.sources.roots.mapM fun root =>
      copyResources tools.hindrances root plan.target plan.namespaces).after ready =
        (.ok passes, last)
  target : report.target = plan.target
  namespaces : report.namespaces = plan.namespaces
  copied : report.copied = passes.flatMap ResourceReport.copied
  unchanged : report.unchanged = passes.flatMap ResourceReport.unchanged

/-- A build that succeeds has made passes. -/
theorem exists_passesOf
    (built : (compile tools project.sources project.target dependencies project.options).on start =
      (.ok report, later)) :
    ∃ plan ready passes, PassesOf tools project dependencies start report plan ready passes := by
  rw [on_eq_after, compile_eq] at built
  obtain ⟨plan, planned, planning, built⟩ := after_bind_eq_ok_iff.1 built
  obtain ⟨filled, reached, filling, finishing⟩ := after_bind_eq_ok_iff.1 built
  rw [fillTarget_eq] at filling
  obtain ⟨compiled, ready, preparing, filling⟩ := after_bind_eq_ok_iff.1 filling
  obtain ⟨passes, last, passing, ended⟩ := after_bind_eq_ok_iff.1 filling
  cases ended
  obtain ⟨files, notices, -, rfl, -⟩ := finish_eq_ok_iff.1 finishing
  refine ⟨plan, ready, passes, ⟨planned, compiled, planning, preparing⟩, ⟨_, passing⟩, rfl, rfl,
    ?_, ?_⟩
  · exact congrArg ResourceReport.copied (ofPasses_eq passes)
  · exact congrArg ResourceReport.unchanged (ofPasses_eq passes)

/-- Each pass of a build covers the files that were below its root before the passes began, and the
report lists what all passes list, in the order of the roots. -/
structure FilesCovered (hindrances : Hindrances) (plan : Plan) (ready : Progress)
    (passes : List ResourceReport) (report : BuildReport) : Prop where
  each : ∀ front root rest, plan.sources.roots = front ++ root :: rest →
    ∃ earlier before pass after others,
      passes = earlier ++ pass :: others ∧
        (front.mapM fun root =>
            copyResources hindrances root report.target report.namespaces).after ready =
            (.ok earlier, before) ∧
          (copyResources hindrances root report.target report.namespaces).after before =
              (.ok pass, after) ∧
            Covers root report.target report.namespaces ready.workspace before.workspace
              after.workspace pass
  all : Lists
    (plan.sources.roots.flatMap fun root =>
      destinations ready.workspace root report.target report.namespaces)
    ⟨report.copied, report.unchanged⟩

/-- Passes that begin in a plain workspace where the target is a directory, over roots apart from it,
cover the files below the roots. -/
theorem filesCovered_of_passesOf
    (passesOf : PassesOf tools project dependencies start report plan progress passes)
    (plain : progress.workspace.tree.Plain)
    (targetPlace : placeOf plan.target = layout.target)
    (leads : progress.workspace.LeadsToDirectory plan.target layout.target)
    (roots : ∀ root ∈ plan.sources.roots,
      root.isAbsolute = true ∧ layout.Root (placeOf root)) :
    FilesCovered tools.hindrances plan progress passes report := by
  obtain ⟨last, passed⟩ := passesOf.passed
  have keeps :
      ∀ root ∈ plan.sources.roots,
        Keeps (fun reached => Filled layout.target progress.workspace reached.workspace)
          (copyResources tools.hindrances root plan.target plan.namespaces) := by
    intro root member reached filled
    exact filled.trans (filled_copyResources filled.plain (filled.leadsToDirectory plain leads)
      (roots root member).1)
  have covers {root : Path} (member : root ∈ plan.sources.roots) {pass : ResourceReport}
      {reached next : Progress}
      (filled : Filled layout.target progress.workspace reached.workspace)
      (one : (copyResources tools.hindrances root plan.target plan.namespaces).after reached =
        (.ok pass, next)) :
      Covers root plan.target plan.namespaces progress.workspace reached.workspace next.workspace
        pass :=
    covers_copyResources plain targetPlace leads (roots root member).1 (roots root member).2 filled
      one
  constructor
  · rw [passesOf.target, passesOf.namespaces]
    intro front root rest split
    rw [split] at passed keeps
    obtain ⟨earlier, before, pass, after, others, inFront, one, -, isPasses⟩ :=
      after_mapM_append_cons_eq_ok passed
    have filled : Filled layout.target progress.workspace before.workspace := by
      have kept := Keeps.mapM (fun other member => keeps other (List.mem_append_left _ member))
        progress (Filled.refl plain layout.target)
      rwa [inFront] at kept
    exact ⟨earlier, before, pass, after, others, isPasses, inFront, one,
      covers (by simp [split]) filled one⟩
  · rw [passesOf.target, passesOf.namespaces, passesOf.copied, passesOf.unchanged, ← ofPasses_eq]
    apply Lists.ofPasses
    exact forall₂_of_after_mapM keeps (fun root member _ _ _ filled one =>
      (covers member filled one).lists) (Filled.refl plain layout.target) passed

/-- In a tree without links whose roots lie apart from the target, every file below a root is either
the source of a compiled namespace or listed once by the pass over the root, never both and never
neither.  The files are those that the batch has left, and those from the start if commands leave the
files below the roots alone. -/
theorem source_files_are_compiled_or_copied
    (plain : start.tree.Plain)
    (linkless : RunnerKeeps tools.runner fun workspace => workspace.tree.Plain)
    (disjoint : ∀ root, IsRoot project start root →
      (project.layout start.current).Root (placeOf root))
    (built : (compile tools project.sources project.target dependencies project.options).on start =
      (.ok report, later)) :
    ∃ plan ready passes,
      PassesOf tools project dependencies start report plan ready passes ∧
        FilesCovered tools.hindrances plan ready passes report ∧
          ((RunnerKeeps tools.runner fun workspace => workspace.tree.Plain ∧
              (project.layout start.current).SameFiles start.tree workspace.tree) →
            (project.layout start.current).SameFiles start.tree ready.workspace.tree) := by
  obtain ⟨plan, ready, passes, passesOf⟩ := exists_passesOf built
  obtain ⟨planned, compiled, planning, prepared⟩ := passesOf.prepared
  obtain ⟨isPlan, unchanged, -⟩ :=
    (reads_makePlan tools project.sources project.target dependencies
      project.options).of_after_eq_ok planning
  have unchanged : planned.workspace = start := unchanged
  have isPlan : readPlan tools project.sources project.target dependencies project.options start =
    .ok plan := isPlan
  obtain ⟨form, splits, -⟩ := readPlan_eq_ok_iff.1 isPlan
  have absolute := isAbsolute_of_absolute form
  have targetPlace : placeOf plan.target = (project.layout start.current).target := by
    rw [Project.layout, anchor_of_absolute form]
  have plannedPlain : planned.workspace.tree.Plain := by
    rwa [unchanged]
  have plainly := MakesTarget.plain absolute
  obtain ⟨readyPlain, leads⟩ :=
    (MakesTarget.of_keeps plainly.keeps).of_prepareTarget linkless plainly plannedPlain prepared
  refine ⟨plan, ready, passes, passesOf, ?_, ?_⟩
  · apply filesCovered_of_passesOf passesOf readyPlain targetPlace (targetPlace ▸ leads)
    intro root member
    obtain ⟨directory, source, listed, rootForm⟩ := (sorted_of_foldlM splits).roots root member
    exact ⟨isAbsolute_of_absolute rootForm, disjoint root ⟨⟨source, listed, rootForm⟩, directory⟩⟩
  · intro considerate
    have made : KeepsWorkspace (fun workspace => workspace.tree.Plain ∧
        (project.layout start.current).SameFiles start.tree workspace.tree)
          (makeDirectories plan.target) := by
      rintro reached ⟨reachedPlain, same⟩
      rw [after_makeDirectories]
      have only := (onlyMade_makeDirectories reachedPlain absolute).1
      dsimp only
      exact ⟨only.plain, same.trans (only.sameFiles _)⟩
    have kept := (MakesTarget.of_keeps made).keepsWorkspace_prepareTarget considerate planned
      ⟨plannedPlain, unchanged ▸ Layout.SameFiles.refl _ _⟩
    rw [prepared] at kept
    exact kept.2

/-- Of two files below a source one is compiled and the other one is copied. -/
theorem compiled_file_is_not_copied :
    ∃ report progress plan ready passes,
      buildOnce batchRunner ⟨"out"⟩ oneNamespace = (.ok report, progress) ∧
        report.namespaces.map Namespace.name = ["a"] ∧
          (report.copied ++ report.unchanged).map Path.text = ["/out/r"] ∧
            PassesOf (toolsOf batchRunner) (oneSource ⟨"out"⟩) [] oneNamespace report plan ready
                passes ∧
              FilesCovered unhindered plan ready passes report := by
  have worked :
      (buildOnce batchRunner ⟨"out"⟩ oneNamespace).1.toOption.any (fun report =>
        report.namespaces.map Namespace.name == ["a"] &&
          (report.copied ++ report.unchanged).map Path.text == ["/out/r"]) = true := by
    decide +kernel
  cases ran : buildOnce batchRunner ⟨"out"⟩ oneNamespace with
  | mk outcome progress =>
      rw [ran] at worked
      cases outcome with
      | error failure =>
          cases worked
      | ok report =>
          simp only [Except.toOption, Option.any_some, Bool.and_eq_true, beq_iff_eq] at worked
          have plain : oneNamespace.tree.Plain := by
            decide +kernel
          have linkless :
              RunnerKeeps (toolsOf batchRunner).runner fun workspace => workspace.tree.Plain :=
            fun earlier command _ plain => (filled_batchRunner earlier command plain).plain
          have disjoint : ∀ root, IsRoot (oneSource ⟨"out"⟩) oneNamespace root →
              ((oneSource ⟨"out"⟩).layout []).Root (placeOf root) := by
            rintro root ⟨⟨source, listed, form⟩, -⟩
            rw [← anchor_of_absolute form]
            exact disjoint_oneSource source listed
          obtain ⟨plan, ready, passes, passesOf, covered, -⟩ :=
            source_files_are_compiled_or_copied plain linkless disjoint ran
          exact ⟨report, progress, plan, ready, passes, rfl, worked.1, worked.2, passesOf, covered⟩

end Build

end ClojureBuild
