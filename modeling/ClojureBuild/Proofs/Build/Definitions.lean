import ClojureBuild.Build.Definitions

/-!
# Looking up definitions

A namespace has as many source files as there are roots that hold one.  The lookup of several
namespaces succeeds when each of them has at most one, and otherwise names the first namespace that
has more with its first two files.
-/

namespace ClojureBuild.Workspace

variable {workspace : Workspace} {root : Path} {roots rest : List Path} {wanted : Namespace}
variable {namespaces : List Namespace} {definitions : List Definition} {failure : BuildError}

/-! ## The source files of one namespace -/

theorem mem_sourcesOf_iff {definition : Definition} :
    definition ∈ workspace.sourcesOf wanted roots ↔
      definition.defined = wanted ∧ definition.root ∈ roots ∧
        definition.source = definition.root.join wanted.sourcePath ∧
          workspace.isFile (definition.root.join wanted.sourcePath) = true := by
  rw [sourcesOf, List.mem_filter, List.mem_map]
  constructor
  · rintro ⟨⟨root, member, rfl⟩, file⟩
    exact ⟨rfl, member, rfl, file⟩
  · rintro ⟨defined, member, source, file⟩
    refine ⟨⟨definition.root, member, ?_⟩, ?_⟩
    · rw [← source, ← defined]
    · rwa [source]

theorem mem_sourcesOf_of_getElem?
    {place : Nat} {root : Path} (atPlace : roots[place]? = some root)
    (file : workspace.isFile (root.join wanted.sourcePath) = true) :
    ⟨wanted, root, root.join wanted.sourcePath⟩ ∈ workspace.sourcesOf wanted roots :=
  mem_sourcesOf_iff.2 ⟨rfl, List.mem_of_getElem? atPlace, rfl, file⟩

theorem sourcesOf_eq_nil_of_forall
    (none : ∀ root ∈ roots, workspace.isFile (root.join wanted.sourcePath) = false) :
    workspace.sourcesOf wanted roots = [] := by
  apply List.eq_nil_iff_forall_not_mem.2
  intro definition member
  obtain ⟨-, isRoot, -, file⟩ := mem_sourcesOf_iff.1 member
  rw [none definition.root isRoot] at file
  cases file

theorem sourcesOf_cons_of_isFile
    (file : workspace.isFile (root.join wanted.sourcePath) = true) :
    workspace.sourcesOf wanted (root :: rest) =
      ⟨wanted, root, root.join wanted.sourcePath⟩ :: workspace.sourcesOf wanted rest := by
  simp [sourcesOf, file]

theorem sourcesOf_cons_of_not_isFile
    (noFile : ¬ workspace.isFile (root.join wanted.sourcePath) = true) :
    workspace.sourcesOf wanted (root :: rest) = workspace.sourcesOf wanted rest := by
  simp [sourcesOf, noFile]

/-- The roots with a source file come one by one from the list of all roots. -/
theorem exists_split_of_sourcesOf
    {definition : Definition} {others : List Definition}
    (sources : workspace.sourcesOf wanted roots = definition :: others) :
    ∃ front root rest,
      roots = front ++ root :: rest ∧
        (∀ earlier ∈ front, workspace.isFile (earlier.join wanted.sourcePath) = false) ∧
          workspace.isFile (root.join wanted.sourcePath) = true ∧
            definition = ⟨wanted, root, root.join wanted.sourcePath⟩ ∧
              workspace.sourcesOf wanted rest = others := by
  rw [sourcesOf, List.filter_eq_cons_iff] at sources
  obtain ⟨before, after, split, noFile, file, remaining⟩ := sources
  obtain ⟨front, behind, rootsSplit, frontMapped, behindMapped⟩ := List.map_eq_append_iff.1 split
  obtain ⟨root, rest, behindSplit, isDefinition, restMapped⟩ :=
    List.map_eq_cons_iff.1 behindMapped
  refine ⟨front, root, rest, by rw [rootsSplit, behindSplit], ?_, ?_, isDefinition.symm, ?_⟩
  · intro earlier member
    have notHeld := noFile ⟨wanted, earlier, earlier.join wanted.sourcePath⟩
      (by rw [← frontMapped]; exact List.mem_map.2 ⟨earlier, member, rfl⟩)
    simpa using notHeld
  · rw [← isDefinition] at file
    exact file
  · rw [sourcesOf, restMapped, remaining]

/-- A relative path leads to a regular file from the root at a place of a list. -/
def HoldsAt (workspace : Workspace) (roots : List Path) (relative : Path) (place : Nat) : Prop :=
  ∃ root, roots[place]? = some root ∧ workspace.isFile (root.join relative) = true

@[simp]
theorem holdsAt_zero_iff {relative : Path} :
    workspace.HoldsAt (root :: rest) relative 0 ↔
      workspace.isFile (root.join relative) = true := by
  simp [HoldsAt]

@[simp]
theorem holdsAt_succ_iff {relative : Path} {place : Nat} :
    workspace.HoldsAt (root :: rest) relative (place + 1) ↔
      workspace.HoldsAt rest relative place := by
  simp [HoldsAt]

theorem sourcesOf_eq_nil_iff :
    workspace.sourcesOf wanted roots = [] ↔
      ∀ place, ¬ workspace.HoldsAt roots wanted.sourcePath place := by
  constructor
  · intro empty place holds
    obtain ⟨root, atPlace, file⟩ := holds
    have member := mem_sourcesOf_of_getElem? atPlace file
    rw [empty] at member
    cases member
  · intro nowhere
    apply sourcesOf_eq_nil_of_forall
    intro root member
    obtain ⟨place, atPlace⟩ := List.mem_iff_getElem?.1 member
    apply Bool.eq_false_iff.2
    intro file
    exact nowhere place ⟨root, atPlace, file⟩

theorem exists_sourcesOf_cons_iff :
    (∃ first others, workspace.sourcesOf wanted roots = first :: others) ↔
      ∃ place, workspace.HoldsAt roots wanted.sourcePath place := by
  rw [← List.ne_nil_iff_exists_cons, Ne, sourcesOf_eq_nil_iff, Classical.not_forall_not]

/-- Two different roots of a list hold a file, or the same root does that is listed twice. -/
theorem sourcesOf_two_iff :
    (∃ first second others,
        workspace.sourcesOf wanted roots = first :: second :: others) ↔
      ∃ left right,
        left ≠ right ∧ workspace.HoldsAt roots wanted.sourcePath left ∧
          workspace.HoldsAt roots wanted.sourcePath right := by
  induction roots with
  | nil =>
      simp [sourcesOf, HoldsAt]
  | cons root rest inductionHypothesis =>
      by_cases file : workspace.isFile (root.join wanted.sourcePath) = true
      · rw [sourcesOf_cons_of_isFile file]
        constructor
        · rintro ⟨first, second, others, equality⟩
          obtain ⟨-, tail⟩ := List.cons.inj equality
          obtain ⟨place, holds⟩ := exists_sourcesOf_cons_iff.1 ⟨second, others, tail⟩
          exact ⟨0, place + 1, (Nat.succ_ne_zero place).symm, holdsAt_zero_iff.2 file,
            holdsAt_succ_iff.2 holds⟩
        · rintro ⟨left, right, differ, holdsLeft, holdsRight⟩
          have later : ∃ place, workspace.HoldsAt rest wanted.sourcePath place := by
            cases left with
            | zero =>
                obtain ⟨place, isLater⟩ := Nat.exists_eq_succ_of_ne_zero differ.symm
                rw [isLater] at holdsRight
                exact ⟨place, holdsAt_succ_iff.1 holdsRight⟩
            | succ place =>
                exact ⟨place, holdsAt_succ_iff.1 holdsLeft⟩
          obtain ⟨second, others, split⟩ := exists_sourcesOf_cons_iff.2 later
          exact ⟨_, second, others, by rw [split]⟩
      · rw [sourcesOf_cons_of_not_isFile file, inductionHypothesis]
        constructor
        · rintro ⟨left, right, differ, holdsLeft, holdsRight⟩
          exact ⟨left + 1, right + 1, by omega, holdsAt_succ_iff.2 holdsLeft,
            holdsAt_succ_iff.2 holdsRight⟩
        · rintro ⟨left, right, differ, holdsLeft, holdsRight⟩
          cases left with
          | zero =>
              exact absurd (holdsAt_zero_iff.1 holdsLeft) file
          | succ left =>
              cases right with
              | zero =>
                  exact absurd (holdsAt_zero_iff.1 holdsRight) file
              | succ right =>
                  exact ⟨left, right, by omega, holdsAt_succ_iff.1 holdsLeft,
                    holdsAt_succ_iff.1 holdsRight⟩

/-- A namespace has source files at two places of a list of roots. -/
def IsDuplicate (workspace : Workspace) (roots : List Path) (wanted : Namespace) : Prop :=
  ∃ left right,
    left ≠ right ∧ workspace.HoldsAt roots wanted.sourcePath left ∧
      workspace.HoldsAt roots wanted.sourcePath right

theorem definitionOf_of_not_isDuplicate (unique : ¬ workspace.IsDuplicate roots wanted) :
    ∃ found,
      workspace.definitionOf roots wanted = .ok found ∧
        workspace.sourcesOf wanted roots = found.toList := by
  cases sources : workspace.sourcesOf wanted roots with
  | nil =>
      exact ⟨none, by simp [definitionOf, sources], rfl⟩
  | cons first others =>
      cases others with
      | nil =>
          exact ⟨some first, by simp [definitionOf, sources], rfl⟩
      | cons second rest =>
          exact absurd (sourcesOf_two_iff.1 ⟨first, second, rest, sources⟩) unique

/-! ## The source files of several namespaces -/

/-- The error that a namespace with two source files gives: it names the files below the first two
roots that hold one. -/
def NamesFirstTwo (workspace : Workspace) (roots : List Path) (wanted : Namespace)
    (failure : BuildError) : Prop :=
  ∃ front first between second rest,
    roots = front ++ first :: (between ++ second :: rest) ∧
      (∀ root ∈ front ++ between, workspace.isFile (root.join wanted.sourcePath) = false) ∧
        workspace.isFile (first.join wanted.sourcePath) = true ∧
          workspace.isFile (second.join wanted.sourcePath) = true ∧
            failure =
              .duplicateNamespace wanted (first.join wanted.sourcePath)
                (second.join wanted.sourcePath)

theorem definitionOf_of_isDuplicate (duplicate : workspace.IsDuplicate roots wanted) :
    ∃ failure,
      workspace.definitionOf roots wanted = .error failure ∧
        workspace.NamesFirstTwo roots wanted failure := by
  obtain ⟨first, second, others, sources⟩ := sourcesOf_two_iff.2 duplicate
  obtain ⟨front, firstRoot, behind, split, frontFree, firstHeld, firstEq, remaining⟩ :=
    exists_split_of_sourcesOf sources
  obtain ⟨between, secondRoot, rest, behindSplit, betweenFree, secondHeld, secondEq, -⟩ :=
    exists_split_of_sourcesOf remaining
  refine ⟨.duplicateNamespace wanted first.source second.source, ?_, front, firstRoot, between,
    secondRoot, rest, ?_, ?_, firstHeld, secondHeld, ?_⟩
  · rw [definitionOf, sources]
  · rw [split, behindSplit]
  · intro root member
    rcases List.mem_append.1 member with inFront | inBetween
    · exact frontFree root inFront
    · exact betweenFree root inBetween
  · rw [firstEq, secondEq]

theorem definitionsOf_cons_of_not_isDuplicate
    (unique : ¬ workspace.IsDuplicate roots wanted) (namespaces : List Namespace) :
    workspace.definitionsOf roots (wanted :: namespaces) =
      (workspace.definitionsOf roots namespaces).map (workspace.sourcesOf wanted roots ++ ·) := by
  obtain ⟨found, read, sources⟩ := definitionOf_of_not_isDuplicate unique
  rw [definitionsOf, read, sources]
  cases workspace.definitionsOf roots namespaces with
  | error failure =>
      rfl
  | ok others =>
      rfl

/-- Namespaces without duplicates are looked up, each by itself. -/
theorem definitionsOf_of_unique
    (unique : ∀ wanted ∈ namespaces, ¬ workspace.IsDuplicate roots wanted) :
    workspace.definitionsOf roots namespaces =
      .ok (namespaces.flatMap fun wanted => workspace.sourcesOf wanted roots) := by
  induction namespaces with
  | nil =>
      rfl
  | cons wanted rest inductionHypothesis =>
      rw [definitionsOf_cons_of_not_isDuplicate (unique wanted List.mem_cons_self),
        inductionHypothesis fun other member => unique other (List.mem_cons_of_mem wanted member)]
      rfl

/-- A lookup that fails does so at the first duplicate. -/
theorem exists_first_duplicate_of_definitionsOf
    (failed : workspace.definitionsOf roots namespaces = .error failure) :
    ∃ before duplicate after,
      namespaces = before ++ duplicate :: after ∧
        (∀ earlier ∈ before, ¬ workspace.IsDuplicate roots earlier) ∧
          workspace.IsDuplicate roots duplicate ∧
            workspace.NamesFirstTwo roots duplicate failure := by
  induction namespaces with
  | nil =>
      cases failed
  | cons wanted rest inductionHypothesis =>
      by_cases duplicate : workspace.IsDuplicate roots wanted
      · obtain ⟨reason, stopped, named⟩ := definitionOf_of_isDuplicate duplicate
        rw [definitionsOf, stopped] at failed
        cases failed
        exact ⟨[], wanted, rest, rfl, by simp, duplicate, named⟩
      · rw [definitionsOf_cons_of_not_isDuplicate duplicate] at failed
        cases others : workspace.definitionsOf roots rest with
        | ok definitions =>
            rw [others] at failed
            cases failed
        | error reason =>
            rw [others] at failed
            cases failed
            obtain ⟨before, found, after, split, unique, isDuplicate, named⟩ :=
              inductionHypothesis others
            refine ⟨wanted :: before, found, after, by rw [split]; rfl, ?_, isDuplicate, named⟩
            intro earlier member
            rcases List.mem_cons.1 member with rfl | inBefore
            · exact duplicate
            · exact unique earlier inBefore

theorem unique_of_definitionsOf
    (found : workspace.definitionsOf roots namespaces = .ok definitions) :
    ∀ wanted ∈ namespaces, ¬ workspace.IsDuplicate roots wanted := by
  induction namespaces generalizing definitions with
  | nil =>
      intro wanted member
      cases member
  | cons first rest inductionHypothesis =>
      by_cases duplicate : workspace.IsDuplicate roots first
      · obtain ⟨reason, stopped, -⟩ := definitionOf_of_isDuplicate duplicate
        rw [definitionsOf, stopped] at found
        cases found
      · rw [definitionsOf_cons_of_not_isDuplicate duplicate] at found
        cases others : workspace.definitionsOf roots rest with
        | error reason =>
            rw [others] at found
            cases found
        | ok read =>
            intro wanted member
            rcases List.mem_cons.1 member with rfl | inRest
            · exact duplicate
            · exact inductionHypothesis others wanted inRest

theorem definitionsOf_eq_ok_iff :
    workspace.definitionsOf roots namespaces = .ok definitions ↔
      (∀ wanted ∈ namespaces, ¬ workspace.IsDuplicate roots wanted) ∧
        definitions = namespaces.flatMap fun wanted => workspace.sourcesOf wanted roots := by
  constructor
  · intro found
    have unique := unique_of_definitionsOf found
    rw [definitionsOf_of_unique unique] at found
    cases found
    exact ⟨unique, rfl⟩
  · rintro ⟨unique, rfl⟩
    exact definitionsOf_of_unique unique

end ClojureBuild.Workspace
