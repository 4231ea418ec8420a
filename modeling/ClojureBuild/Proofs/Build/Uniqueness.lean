import ClojureBuild.Proofs.Build.Detection

/-!
# One source file for every namespace

After detection, the lookup of the detected namespaces succeeds exactly when no path that spells a
namespace leads to files below two places of the list of roots.  There is one exception: a root that
stands for the standard input is never walked, and two such roots can hold the same file unnoticed.
-/

namespace ClojureBuild

namespace Workspace

variable {workspace : Workspace} {root : Path} {roots : List Path} {location : Location}
variable {relative : Path} {defined : Namespace}

/-- A relative path that spells a namespace leads to a regular file from two places of a list. -/
structure Clash (workspace : Workspace) (roots : List Path) (relative : Path) (left right : Nat) :
    Prop where
  spells : (Namespace.ofSourcePath? relative).isSome = true
  differ : left ≠ right
  holdsLeft : workspace.HoldsAt roots relative left
  holdsRight : workspace.HoldsAt roots relative right

/-- Some path clashes. -/
def HasClash (workspace : Workspace) (roots : List Path) : Prop :=
  ∃ relative left right, workspace.Clash roots relative left right

/-- Some path clashes, at a root that a walk enters and another one. -/
def HasWalkedClash (workspace : Workspace) (roots : List Path) : Prop :=
  ∃ relative left right,
    workspace.Clash roots relative left right ∧
      ∃ root, roots[left]? = some root ∧ root.same standardInput = false

/-- However the path of a source is spelled, the source also lies at the path of its namespace. -/
theorem isFile_join_sourcePath
    (plain : workspace.tree.Plain) (leads : workspace.LeadsToDirectory root location)
    (spelled : Namespace.ofSourcePath? relative = some defined)
    (file : workspace.isFile (root.join relative) = true) :
    workspace.isFile (root.join defined.sourcePath) = true := by
  obtain ⟨isRelative, pieces⟩ := Namespace.pieces_of_ofSourcePath? spelled
  obtain ⟨place, content, modified, mode, found⟩ := (isFile_iff _ _).1 file
  obtain ⟨-, followed, held⟩ := (status_join_iff plain leads isRelative).1 found
  have names := FileTree.follow_filter plain followed
  rw [pieces] at names
  have sourcePlace := FileTree.eq_spell_of_follow plain names
  rw [FileTree.spell_of_plain location defined.plainName_of_mem_sourceNames] at sourcePlace
  rw [Namespace.join_sourcePath,
    isFile_below_iff plain leads defined.plainName_of_mem_sourceNames]
  exact ⟨content, modified, mode, sourcePlace ▸ held⟩

theorem holdsAt_sourcePath
    (plain : workspace.tree.Plain)
    (directories : ∀ root ∈ roots, workspace.isDirectory root = true)
    (spelled : Namespace.ofSourcePath? relative = some defined) {place : Nat}
    (holds : workspace.HoldsAt roots relative place) :
    workspace.HoldsAt roots defined.sourcePath place := by
  obtain ⟨root, atPlace, file⟩ := holds
  obtain ⟨location, leads⟩ :=
    (isDirectory_iff _ _).1 (directories root (List.mem_of_getElem? atPlace))
  exact ⟨root, atPlace, isFile_join_sourcePath plain leads spelled file⟩

/-- What detection tells of at a place of the list of roots. -/
theorem exists_place_of_mem_detected
    (plain : workspace.tree.Plain)
    (directories : ∀ root ∈ roots, workspace.isDirectory root = true) {definition : Definition}
    (member : definition ∈ workspace.detected roots) :
    ∃ place : Nat,
      roots[place]? = some definition.root ∧
        definition.root.same standardInput = false ∧
          definition.source = definition.root.join definition.defined.sourcePath ∧
            workspace.isFile (definition.root.join definition.defined.sourcePath) = true := by
  obtain ⟨root, inRoots, below⟩ := List.mem_flatMap.1 member
  obtain ⟨place, atPlace⟩ := List.mem_iff_getElem?.1 inRoots
  obtain ⟨location, leads⟩ := (isDirectory_iff _ _).1 (directories root inRoots)
  obtain ⟨walked, rfl, source, file⟩ := (mem_detectedBelow_iff plain leads).1 below
  exact ⟨place, atPlace, walked, source, file⟩

theorem mem_detected_of_holdsAt
    (plain : workspace.tree.Plain)
    (directories : ∀ root ∈ roots, workspace.isDirectory root = true) {place : Nat}
    (atPlace : roots[place]? = some root) (walked : root.same standardInput = false)
    (file : workspace.isFile (root.join defined.sourcePath) = true) :
    (⟨defined, root, root.join defined.sourcePath⟩ : Definition) ∈ workspace.detected roots := by
  have inRoots := List.mem_of_getElem? atPlace
  obtain ⟨location, leads⟩ := (isDirectory_iff _ _).1 (directories root inRoots)
  exact List.mem_flatMap.2
    ⟨root, inRoots, (mem_detectedBelow_iff plain leads).2 ⟨walked, rfl, rfl, file⟩⟩

/-- Detection tells of a duplicate exactly when a path clashes at a root that was walked. -/
theorem exists_detected_duplicate_iff
    (plain : workspace.tree.Plain)
    (directories : ∀ root ∈ roots, workspace.isDirectory root = true) :
    (∃ definition ∈ workspace.detected roots,
        workspace.IsDuplicate roots definition.defined) ↔
      workspace.HasWalkedClash roots := by
  constructor
  · rintro ⟨definition, member, left, right, differ, holdsLeft, holdsRight⟩
    obtain ⟨place, atPlace, walked, -, file⟩ :=
      exists_place_of_mem_detected plain directories member
    have spells :
        (Namespace.ofSourcePath? definition.defined.sourcePath).isSome = true := by
      rw [Namespace.ofSourcePath?_sourcePath]
      rfl
    have holdsPlace : workspace.HoldsAt roots definition.defined.sourcePath place :=
      ⟨definition.root, atPlace, file⟩
    by_cases sameLeft : place = left
    · have other : place ≠ right := by
        rintro rfl
        exact differ sameLeft.symm
      exact ⟨_, place, right, ⟨spells, other, holdsPlace, holdsRight⟩,
        definition.root, atPlace, walked⟩
    · exact ⟨_, place, left, ⟨spells, sameLeft, holdsPlace, holdsLeft⟩,
        definition.root, atPlace, walked⟩
  · rintro ⟨relative, left, right, clash, root, atLeft, walked⟩
    obtain ⟨defined, spelled⟩ := Option.isSome_iff_exists.1 clash.spells
    have holdsLeft := holdsAt_sourcePath plain directories spelled clash.holdsLeft
    have holdsRight := holdsAt_sourcePath plain directories spelled clash.holdsRight
    have file : workspace.isFile (root.join defined.sourcePath) = true := by
      obtain ⟨other, atOther, held⟩ := holdsLeft
      rw [atLeft] at atOther
      cases atOther
      exact held
    exact ⟨_, mem_detected_of_holdsAt plain directories atLeft walked file, left, right,
      clash.differ, holdsLeft, holdsRight⟩

/-- What detection tells of is pairwise different when it tells of no duplicate. -/
theorem detected_distinct
    (plain : workspace.tree.Plain)
    (directories : ∀ root ∈ roots, workspace.isDirectory root = true)
    (unique :
      ∀ definition ∈ workspace.detected roots,
        ¬ workspace.IsDuplicate roots definition.defined) :
    (workspace.detected roots).Pairwise fun left right => left.defined ≠ right.defined := by
  rw [detected, List.pairwise_flatMap]
  refine ⟨?_, ?_⟩
  · intro root inRoots
    obtain ⟨location, leads⟩ := (isDirectory_iff _ _).1 (directories root inRoots)
    exact detectedBelow_distinct plain leads
  · rw [List.pairwise_iff_getElem]
    intro left right leftBound rightBound order first firstMember second secondMember same
    have holds : ∀ {place : Nat} (bound : place < roots.length) {definition : Definition},
        definition ∈ workspace.detectedBelow roots[place] →
          workspace.HoldsAt roots definition.defined.sourcePath place := by
      intro place bound definition member
      obtain ⟨location, leads⟩ :=
        (isDirectory_iff _ _).1 (directories _ (List.getElem_mem bound))
      obtain ⟨-, -, -, file⟩ := (mem_detectedBelow_iff plain leads).1 member
      exact ⟨_, List.getElem?_eq_getElem bound, file⟩
    have inDetected : first ∈ workspace.detected roots :=
      List.mem_flatMap.2 ⟨_, List.getElem_mem leftBound, firstMember⟩
    refine unique first inDetected
      ⟨left, right, Nat.ne_of_lt order, holds leftBound firstMember, ?_⟩
    rw [same]
    exact holds rightBound secondMember

/-- Without duplicates, what detection tells of is what the lookup finds. -/
theorem flatMap_sourcesOf_detected
    (plain : workspace.tree.Plain)
    (directories : ∀ root ∈ roots, workspace.isDirectory root = true)
    (unique :
      ∀ definition ∈ workspace.detected roots,
        ¬ workspace.IsDuplicate roots definition.defined) :
    ((workspace.detected roots).map Definition.defined).flatMap
        (fun wanted => workspace.sourcesOf wanted roots) =
      workspace.detected roots := by
  have alone :
      ∀ definition ∈ workspace.detected roots,
        workspace.sourcesOf definition.defined roots = [definition] := by
    intro definition member
    obtain ⟨place, atPlace, -, source, file⟩ :=
      exists_place_of_mem_detected plain directories member
    have held : definition ∈ workspace.sourcesOf definition.defined roots :=
      mem_sourcesOf_iff.2 ⟨rfl, List.mem_of_getElem? atPlace, source, file⟩
    obtain ⟨found, -, sources⟩ := definitionOf_of_not_isDuplicate (unique definition member)
    rw [sources] at held ⊢
    rw [Option.mem_toList.1 held]
    rfl
  rw [List.flatMap_map, List.flatMap_congr alone]
  exact List.flatMap_singleton' _

theorem HasWalkedClash.hasClash (clash : workspace.HasWalkedClash roots) :
    workspace.HasClash roots := by
  obtain ⟨relative, left, right, clashes, -⟩ := clash
  exact ⟨relative, left, right, clashes⟩

/-- The lookup stops at the first namespace of a list that has two source files, and names the files
below the first two roots that hold one. -/
def StopsAtFirstDuplicate (workspace : Workspace) (roots : List Path)
    (namespaces : List Namespace) (failure : BuildError) : Prop :=
  ∃ before duplicate after,
    namespaces = before ++ duplicate :: after ∧
      (∀ earlier ∈ before, ¬ workspace.IsDuplicate roots earlier) ∧
        workspace.IsDuplicate roots duplicate ∧
          workspace.NamesFirstTwo roots duplicate failure

end Workspace

/-- After detection in a plain workspace the lookup succeeds unless a path that spells a namespace
clashes at a root that was walked.  It then finds for every namespace the very file that detection
met, and no namespace twice; otherwise it stops at the first duplicate.  So it tells all clashes
apart from clash-free roots exactly when no clash is confined to roots that are not walked. -/
theorem detected_namespaces_have_one_source
    {workspace : Workspace} (plain : workspace.tree.Plain) {roots : List Path}
    {namespaces : List Namespace} {progress : Progress}
    (detection : (Build.namespacesOfRoots roots).on workspace = (.ok namespaces, progress)) :
    progress.workspace = workspace ∧
      ((∃ definitions, workspace.definitionsOf roots namespaces = .ok definitions) ↔
        ¬ workspace.HasWalkedClash roots) ∧
      (∀ definitions, workspace.definitionsOf roots namespaces = .ok definitions →
        namespaces.Nodup ∧ definitions.map Definition.defined = namespaces ∧
          definitions = workspace.detected roots) ∧
      (∀ failure, workspace.definitionsOf roots namespaces = .error failure →
        workspace.StopsAtFirstDuplicate roots namespaces failure) ∧
      (((∃ definitions, workspace.definitionsOf roots namespaces = .ok definitions) ↔
          ¬ workspace.HasClash roots) ↔
        (workspace.HasClash roots → workspace.HasWalkedClash roots)) := by
  obtain ⟨read, sameWorkspace, -⟩ := (Build.reads_namespacesOfRoots roots).of_after_eq_ok detection
  obtain ⟨found, walked, last⟩ := Build.bind_eq_ok_iff.1 read
  cases last
  obtain ⟨directories, told⟩ := Build.detected_of_mapM_readBelow walked
  have directories : ∀ root ∈ roots, workspace.isDirectory root = true := directories
  have told : found.flatten = (workspace.detected roots).map Definition.defined := told
  have succeeds :
      (∃ definitions, workspace.definitionsOf roots found.flatten = .ok definitions) ↔
        ¬ workspace.HasWalkedClash roots := by
    rw [← Workspace.exists_detected_duplicate_iff plain directories, told]
    simp only [Workspace.definitionsOf_eq_ok_iff, exists_and_left, exists_eq, and_true]
    simp
  refine ⟨sameWorkspace, succeeds, ?_, ?_, ?_⟩
  · intro definitions located
    have unique := Workspace.unique_of_definitionsOf located
    obtain ⟨-, isLookup⟩ := Workspace.definitionsOf_eq_ok_iff.1 located
    rw [told, List.forall_mem_map] at unique
    have isDetected : definitions = workspace.detected roots := by
      rw [isLookup, told, Workspace.flatMap_sourcesOf_detected plain directories unique]
    refine ⟨?_, ?_, isDetected⟩
    · rw [told]
      exact List.pairwise_map.2 (Workspace.detected_distinct plain directories unique)
    · rw [isDetected, told]
  · intro failure stopped
    exact Workspace.exists_first_duplicate_of_definitionsOf stopped
  · rw [succeeds]
    constructor
    · intro agree clash
      by_contra unwalked
      exact agree.1 unwalked clash
    · intro confined
      constructor
      · intro unwalked clash
        exact unwalked (confined clash)
      · intro clashFree walkedClash
        exact clashFree walkedClash.hasClash

/-- Two roots with a source file each. -/
def twoRoots : Workspace where
  tree :=
    ⟨[([], .directory ⟨0⟩), (["a"], .directory ⟨0⟩), (["b"], .directory ⟨0⟩),
      (["a", "x.clj"], .file [] ⟨0⟩ 420), (["b", "y.clj"], .file [] ⟨0⟩ 420)]⟩
  current := []
  home := ⟨"/home"⟩
  clock := ⟨0⟩

theorem twoRoots_have_one_source :
    twoRoots.tree.Plain ∧
      (Build.namespacesOfRoots [⟨"a"⟩, ⟨"b"⟩]).on twoRoots =
        (.ok [⟨["x"], by decide, by decide⟩, ⟨["y"], by decide, by decide⟩],
          Progress.start twoRoots) ∧
        ((∃ definitions,
            twoRoots.definitionsOf [⟨"a"⟩, ⟨"b"⟩]
              [⟨["x"], by decide, by decide⟩, ⟨["y"], by decide, by decide⟩] =
                .ok definitions) ↔
          ¬ twoRoots.HasWalkedClash [⟨"a"⟩, ⟨"b"⟩]) := by
  have plain : twoRoots.tree.Plain := by decide +kernel
  have detection :
      (Build.namespacesOfRoots [⟨"a"⟩, ⟨"b"⟩]).on twoRoots =
        (.ok [⟨["x"], by decide, by decide⟩, ⟨["y"], by decide, by decide⟩],
          Progress.start twoRoots) := by
    rfl
  exact ⟨plain, detection, (detected_namespaces_have_one_source plain detection).2.1⟩

/-- A source file in a directory whose name stands for the standard input. -/
def unwalkedRoot : Workspace where
  tree :=
    ⟨[([], .directory ⟨0⟩), (["-"], .directory ⟨0⟩), (["-", "x.clj"], .file [] ⟨0⟩ 420)]⟩
  current := []
  home := ⟨"/home"⟩
  clock := ⟨0⟩

/-- Below roots that are not walked a clash goes unnoticed. -/
theorem clash_of_unwalked_roots_is_missed :
    ¬ ∀ (workspace : Workspace) (roots : List Path) (namespaces : List Namespace)
        (progress : Progress),
      workspace.tree.Plain →
        (Build.namespacesOfRoots roots).on workspace = (.ok namespaces, progress) →
          ((∃ definitions, workspace.definitionsOf roots namespaces = .ok definitions) ↔
            ¬ workspace.HasClash roots) := by
  intro everywhere
  have detection :
      (Build.namespacesOfRoots [⟨"-"⟩, ⟨"-"⟩]).on unwalkedRoot =
        (.ok [], Progress.start unwalkedRoot) := by
    rfl
  have file : unwalkedRoot.isFile ((Path.mk "-").join ⟨"x.clj"⟩) = true := by
    decide +kernel
  have spells : (Namespace.ofSourcePath? ⟨"x.clj"⟩).isSome = true := by
    decide +kernel
  have clash : unwalkedRoot.HasClash [⟨"-"⟩, ⟨"-"⟩] :=
    ⟨⟨"x.clj"⟩, 0, 1, spells, by decide, ⟨⟨"-"⟩, rfl, file⟩, ⟨⟨"-"⟩, rfl, file⟩⟩
  have agree := everywhere unwalkedRoot _ _ _ (by decide +kernel) detection
  exact agree.1 ⟨[], rfl⟩ clash

end ClojureBuild
