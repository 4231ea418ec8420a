import ClojureBuild.Proofs.Build.Promises

/-!
# Planning again

A plan is made again in the same way when the workspace has only advanced since, the files at and
below the sources are the same, and no source that led nowhere leads anywhere now.
-/

namespace ClojureBuild

open Workspace

namespace Workspace

variable {before after : Workspace} {path root : Path} {roots : List Path} {place : Location}
variable {layout : Layout} {namespaces : List Namespace} {wanted : Namespace}

/-! ## Looking again -/

theorem absolute_of_current (current : after.current = before.current) (path : Path) :
    after.absolute path = before.absolute path := by
  rw [absolute, absolute, currentPath, currentPath, current]

/-- What leads to a file or a directory keeps its kind. -/
theorem Advanced.kind_eq
    (plain : before.tree.Plain) (advanced : Advanced before after)
    (settled : after.isPresent path = true → before.isPresent path = true) :
    after.isDirectory path = before.isDirectory path ∧ after.isFile path = before.isFile path := by
  by_cases present : before.isPresent path = true
  · rcases (isPresent_iff _ _).1 present with ⟨location, entry, found⟩
    rcases advanced.status plain found with ⟨later, foundAfter, -, directory, file⟩
    simp only [isDirectory, isFile, entrySatisfies, found, foundAfter]
    exact ⟨directory, file⟩
  · have absent := mt settled present
    have nothing (workspace : Workspace) (nowhere : ¬ workspace.isPresent path = true)
        (property : Entry → Bool) : workspace.entrySatisfies property path = false := by
      apply Bool.eq_false_iff.2
      intro satisfied
      rcases (entrySatisfies_iff _ _ _).1 satisfied with ⟨location, entry, found, -⟩
      exact nowhere ((isPresent_iff _ _).2 ⟨location, entry, found⟩)
    simp only [isDirectory, isFile, nothing after absent, nothing before present, and_self]

theorem fileNames_of_sameFiles
    (plain : before.tree.Plain) (afterPlain : after.tree.Plain)
    (same : layout.SameFiles before.tree after.tree) (root : layout.Root place) :
    after.fileNames place = before.fileNames place :=
  FileTree.filesBelow_eq_of_holdsFile_iff afterPlain.toWellFormed plain.toWellFormed
    (fun _ => length_lt_walkBound afterPlain.toWellFormed)
    (fun _ => length_lt_walkBound plain.toWellFormed) fun _ => same.holdsFile_iff root

/-- A root of a project, as it was found. -/
structure KnownRoot (layout : Layout) (before : Workspace) (root : Path) : Prop where
  absolute : root.isAbsolute = true
  apart : layout.Root (placeOf root)
  leads : before.LeadsToDirectory root (placeOf root)

theorem knownRoot
    (plain : before.tree.Plain) (absolute : root.isAbsolute = true)
    (directory : before.isDirectory root = true) (apart : layout.Root (placeOf root)) :
    KnownRoot layout before root := by
  rcases isDirectory_iff_leadsToDirectory.1 directory with ⟨location, leads⟩
  have isPlace := eq_placeOf_of_leadsToDirectory plain absolute leads
  subst isPlace
  exact ⟨absolute, apart, leads⟩

theorem KnownRoot.isFile_below_eq
    (known : KnownRoot layout before root) (plain : before.tree.Plain)
    (advanced : Advanced before after) (same : layout.SameFiles before.tree after.tree)
    {names : List String} (plainNames : ∀ name ∈ names, PlainName name) :
    after.isFile (root.below names) = before.isFile (root.below names) := by
  rw [Bool.eq_iff_iff, isFile_below_iff advanced.plain (advanced.leadsToDirectory plain known.leads)
    plainNames, isFile_below_iff plain known.leads plainNames]
  exact same.holdsFile_iff known.apart

theorem sourcesOf_of_isFile
    (same : ∀ root ∈ roots,
      after.isFile (root.join wanted.sourcePath) = before.isFile (root.join wanted.sourcePath)) :
    after.sourcesOf wanted roots = before.sourcesOf wanted roots := by
  rw [sourcesOf, sourcesOf]
  apply List.filter_congr
  intro definition member
  rcases List.mem_map.1 member with ⟨root, inRoots, rfl⟩
  exact same root inRoots

theorem definitionsOf_of_sourcesOf
    (same : ∀ wanted, after.sourcesOf wanted roots = before.sourcesOf wanted roots)
    (namespaces : List Namespace) :
    after.definitionsOf roots namespaces = before.definitionsOf roots namespaces := by
  induction namespaces with
  | nil =>
      rfl
  | cons wanted rest inductionHypothesis =>
      rw [definitionsOf, definitionsOf, inductionHypothesis, definitionOf, definitionOf, same]

end Workspace

namespace LocalRepository

variable {before after : Workspace}

/-- What a repository has found is found again. -/
theorem resolve_of_advanced
    {repository : LocalRepository} {dependency : Dependency} {found : Path}
    (plain : before.tree.Plain) (advanced : Advanced before after)
    (resolved : repository.resolve before dependency = .ok found) :
    repository.resolve after dependency = .ok found := by
  have sameAnchor (path : Path) : anchored after path = anchored before path := by
    rw [anchored, anchored, currentPath, currentPath, advanced.current]
  have stillFile {path : Path} (file : before.isFile path = true) : after.isFile path = true := by
    rcases (isFile_iff _ _).1 file with ⟨location, content, modified, mode, isFound⟩
    rw [(advanced.kind_eq plain fun _ =>
      (isPresent_iff _ _).2 ⟨location, _, isFound⟩).2]
    exact file
  cases dependency with
  | path path =>
      simp only [resolve, advanced.home] at resolved ⊢
      split at resolved
      · next present =>
          rw [if_pos (advanced.isPresent plain present), sameAnchor]
          exact resolved
      · cases resolved
  | artifact coordinate =>
      cases root : repository.root with
      | none =>
          simp [resolve, root] at resolved
      | some place =>
          simp only [resolve, root, advanced.home] at resolved ⊢
          split at resolved
          · next file =>
              rw [if_pos (stillFile file), sameAnchor]
              exact resolved
          · cases resolved

end LocalRepository

namespace Build

variable {before after : Workspace} {project : Project} {tools : Tools} {plan : Plan}
variable {dependencies : List Dependency} {layout : Layout} {root : Path} {roots : List Path}

/-! ## The plan again -/

theorem mapM_eq_ok_of_imp
    {α β ε : Type} {first second : α → Except ε β} {items : List α} {values : List β}
    (again : ∀ item ∈ items, ∀ value, first item = .ok value → second item = .ok value)
    (done : items.mapM first = .ok values) : items.mapM second = .ok values := by
  induction items generalizing values with
  | nil =>
      exact done
  | cons item rest inductionHypothesis =>
      rw [List.mapM_cons, bind_eq_ok_iff] at done
      rcases done with ⟨value, one, onward⟩
      rcases bind_eq_ok_iff.1 onward with ⟨others, behind, last⟩
      cases last
      rw [List.mapM_cons, again item List.mem_cons_self value one]
      refine bind_eq_ok_iff.2 ⟨value, rfl, bind_eq_ok_iff.2 ⟨others, ?_, rfl⟩⟩
      exact inductionHypothesis (fun other member => again other (List.mem_cons_of_mem item member))
        behind

/-- Every listed source lies neither at, below nor above the target. -/
def Disjoint (project : Project) (current : Location) : Prop :=
  ∀ source ∈ project.sources,
    (project.layout current).Root (placeOf (Project.anchor current source))

theorem disjoint_iff {current : Location} :
    Disjoint project current ↔
      ∀ source ∈ project.sources,
        ¬ placeOf (Project.anchor current source) <+: placeOf (Project.anchor current project.target) ∧
          ¬ placeOf (Project.anchor current project.target) <+:
            placeOf (Project.anchor current source) := by
  constructor
  · intro disjoint source listed
    exact ⟨(disjoint source listed).notAbove, (disjoint source listed).notBelow⟩
  · intro apart source listed
    exact ⟨List.mem_map.2 ⟨source, listed, rfl⟩, (apart source listed).1, (apart source listed).2⟩

/-- No listed source that led nowhere leads anywhere. -/
def Settled (project : Project) (before after : Workspace) : Prop :=
  ∀ source ∈ project.sources, ∀ path, before.absolute source = .ok path →
    after.isPresent path = true → before.isPresent path = true

/-- Only the target has changed and the way to it: the files at and below the sources are the same,
and what is new is below the target or on its way. -/
structure Onward (project : Project) (before after : Workspace) : Prop
    extends Advanced before after where
  sameFiles : (project.layout before.current).SameFiles before.tree after.tree
  places : ∀ location, after.tree.find? location ≠ none →
    before.tree.find? location ≠ none ∨
      OnTheWay (Project.anchor before.current project.target) location ∨
        (project.layout before.current).target <+: location

/-- Where neither the target nor a source is spelled with a step back, a source that led nowhere leads
nowhere afterwards. -/
theorem settled_of_onward
    (plain : before.tree.Plain) (disjoint : Disjoint project before.current)
    (onward : Onward project before after)
    (targetSteps : ∀ step ∈ (Project.anchor before.current project.target).steps, PlainName step)
    (sourceSteps : ∀ source ∈ project.sources,
      ".." ∉ (Project.anchor before.current source).steps) :
    Settled project before after := by
  intro source listed path form present
  have absolute := isAbsolute_of_absolute form
  have apart := disjoint source listed
  have noParent := sourceSteps source listed
  rw [anchor_of_absolute form] at apart noParent
  rcases (isPresent_iff _ _).1 present with ⟨location, entry, found⟩
  have isPlace : location = placeOf path := by
    rw [spelled_of_status onward.plain found, spelled_of_isAbsolute absolute]
  subst isPlace
  rcases (status_eq_ok_iff onward.plain).1 found with ⟨written, followed, held⟩
  have heldBefore : before.tree.find? (placeOf path) ≠ none := by
    rcases onward.places (placeOf path) (by simp [held]) with old | onTheWay | below
    · exact old
    · rcases onTheWay with ⟨initial, isInitial, same⟩
      have initialPlain : ∀ step ∈ initial, PlainName step :=
        fun step member => targetSteps step (isInitial.subset member)
      rw [FileTree.spell_of_plain [] initialPlain, List.nil_append] at same
      subst same
      have isTarget : (project.layout before.current).target =
          (Project.anchor before.current project.target).steps :=
        (FileTree.spell_of_plain [] targetSteps).trans (List.nil_append _)
      exact absurd (isTarget ▸ isInitial) apart.notAbove
    · exact absurd below apart.notBelow
  have bodyForward : ".." ∉ path.body := by
    intro member
    apply noParent
    rw [Path.steps, List.mem_filter]
    exact ⟨member, by decide⟩
  rw [startOf_of_isAbsolute absolute] at followed
  have followedBefore :=
    (onward.grows.follow_back plain onward.plain bodyForward heldBefore followed).1
  rcases Option.ne_none_iff_exists'.1 heldBefore with ⟨old, foundOld⟩
  refine (isPresent_iff _ _).2 ⟨placeOf path, old, (status_eq_ok_iff plain).2 ⟨written, ?_, foundOld⟩⟩
  rw [startOf_of_isAbsolute absolute]
  exact followedBefore

theorem sortSource_of_advanced
    (plain : before.tree.Plain) (advanced : Advanced before after)
    (settled : Settled project before after) {source : Path} (member : source ∈ project.sources)
    (split : Sources) : sortSource after split source = sortSource before split source := by
  rw [sortSource, sortSource, absolute_of_current advanced.current]
  cases form : before.absolute source with
  | error failure =>
      rfl
  | ok path =>
      rcases advanced.kind_eq plain (settled source member path form) with ⟨directory, file⟩
      simp only [directory, file]

theorem foldlM_sortSource_of_advanced
    (plain : before.tree.Plain) (advanced : Advanced before after)
    (settled : Settled project before after) :
    project.sources.foldlM (sortSource after) ⟨[], []⟩ =
      project.sources.foldlM (sortSource before) ⟨[], []⟩ := by
  have onward :
      ∀ (listed : List Path) (split : Sources), (∀ source ∈ listed, source ∈ project.sources) →
        listed.foldlM (sortSource after) split = listed.foldlM (sortSource before) split := by
    intro listed
    induction listed with
    | nil =>
        intro split _
        rfl
    | cons source rest inductionHypothesis =>
        intro split members
        have restMembers : ∀ other ∈ rest, other ∈ project.sources :=
          fun other inRest => members other (List.mem_cons_of_mem source inRest)
        rw [List.foldlM_cons, List.foldlM_cons,
          sortSource_of_advanced plain advanced settled (members source List.mem_cons_self)]
        exact bind_congr fun next => inductionHypothesis next restMembers
  exact onward project.sources ⟨[], []⟩ fun _ => id

theorem readBelow_of_onward
    (plain : before.tree.Plain) (onward : Onward project before after)
    (known : KnownRoot (project.layout before.current) before root) {found : List Namespace}
    (read : readBelow root before = .ok found) : readBelow root after = .ok found := by
  rcases readBelow_eq_ok_iff.1 read with ⟨-, files, walked, isFound⟩
  have leadsAfter := onward.leadsToDirectory plain known.leads
  have named := same_standardInput_of_isAbsolute known.absolute
  refine readBelow_eq_ok_iff.2
    ⟨isDirectory_iff_leadsToDirectory.2 ⟨_, leadsAfter⟩, files, ?_, isFound⟩
  rw [walk_none_eq onward.plain leadsAfter named,
    fileNames_of_sameFiles plain onward.plain onward.sameFiles known.apart,
    ← walk_none_eq plain known.leads named]
  exact walked

theorem readNamespaces_of_onward
    {namespaces : List Namespace} {options : BuildOptions}
    (plain : before.tree.Plain) (onward : Onward project before after)
    (known : ∀ root ∈ roots, KnownRoot (project.layout before.current) before root)
    (chosen : readNamespaces options roots before = .ok namespaces) :
    readNamespaces options roots after = .ok namespaces := by
  unfold readNamespaces at chosen ⊢
  split at chosen
  · cases chosen
  · exact chosen
  · rcases bind_eq_ok_iff.1 chosen with ⟨found, walked, last⟩
    refine bind_eq_ok_iff.2 ⟨found, ?_, last⟩
    exact mapM_eq_ok_of_imp
      (fun root member _ read => readBelow_of_onward plain onward (known root member) read) walked

theorem readOrder_of_advanced
    {repository : LocalRepository} {runtime : Path} {classpath : Classpath}
    (plain : before.tree.Plain) (advanced : Advanced before after)
    (ordered : readOrder repository.resolve dependencies roots runtime before = .ok classpath) :
    readOrder repository.resolve dependencies roots runtime after = .ok classpath := by
  rcases bind_eq_ok_iff.1 ordered with ⟨resolved, resolving, rest⟩
  refine bind_eq_ok_iff.2 ⟨resolved, ?_, ?_⟩
  · refine mapM_eq_ok_of_imp (fun dependency _ found read => ?_) resolving
    rw [mapError_eq_ok_iff] at read ⊢
    exact LocalRepository.resolve_of_advanced plain advanced read
  · simp only [absolute_of_current advanced.current]
    exact rest

/-- A plan that was made is made again. -/
theorem readPlan_of_onward
    {repository : LocalRepository} (plain : before.tree.Plain)
    (resolver : tools.resolver = repository.resolve)
    (disjoint : Disjoint project before.current) (onward : Onward project before after)
    (settled : Settled project before after)
    (planned : readPlan tools project.sources project.target dependencies project.options before =
      .ok plan) :
    readPlan tools project.sources project.target dependencies project.options after = .ok plan := by
  rcases readPlan_eq_ok_iff.1 planned with ⟨form, sorted, chosen, defined, ordered⟩
  have known : ∀ root ∈ plan.sources.roots,
      KnownRoot (project.layout before.current) before root := by
    intro root member
    rcases (sorted_of_foldlM sorted).roots root member with ⟨directory, source, listed, rootForm⟩
    have apart := disjoint source listed
    rw [anchor_of_absolute rootForm] at apart
    exact knownRoot plain (isAbsolute_of_absolute rootForm) directory apart
  have sameSources (wanted : Namespace) :
      after.sourcesOf wanted plan.sources.roots = before.sourcesOf wanted plan.sources.roots := by
    apply sourcesOf_of_isFile
    intro root member
    rw [Namespace.join_sourcePath]
    exact (known root member).isFile_below_eq plain onward.toAdvanced onward.sameFiles
      wanted.plainName_of_mem_sourceNames
  rw [resolver] at ordered
  refine readPlan_eq_ok_iff.2 ⟨?_, ?_, ?_, ?_, ?_⟩
  · rw [absolute_of_current onward.current, form]
  · rw [foldlM_sortSource_of_advanced plain onward.toAdvanced settled, sorted]
  · exact readNamespaces_of_onward plain onward known chosen
  · rw [definitionsOf_of_sourcesOf sameSources, defined]
  · rw [resolver]
    exact readOrder_of_advanced plain onward.toAdvanced ordered

end Build

end ClojureBuild
