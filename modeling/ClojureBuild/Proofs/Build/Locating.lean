import ClojureBuild.Proofs.Build.Definitions

/-!
# Locating namespaces

A lookup of several namespaces gives one definition for each position of the list whose namespace has
a file below some root, in the order of the list.  It fails exactly when a namespace has files below
two positions of the list of roots, at the first such namespace and with its first two files.
-/

namespace ClojureBuild.Workspace

variable {workspace : Workspace} {roots front rest : List Path} {wanted : Namespace}
variable {namespaces : List Namespace} {definitions : List Definition} {definition : Definition}
variable {failure : BuildError}

/-! ## One namespace -/

theorem sourcesOf_append (front rest : List Path) :
    workspace.sourcesOf wanted (front ++ rest) =
      workspace.sourcesOf wanted front ++ workspace.sourcesOf wanted rest := by
  simp only [sourcesOf, List.map_append, List.filter_append]

theorem not_isDuplicate_iff :
    ¬ workspace.IsDuplicate roots wanted ↔
      ∀ left right, workspace.HoldsAt roots wanted.sourcePath left →
        workspace.HoldsAt roots wanted.sourcePath right → left = right := by
  constructor
  · intro unique left right holdsLeft holdsRight
    apply Decidable.byContradiction
    intro differ
    exact unique ⟨left, right, differ, holdsLeft, holdsRight⟩
  · intro same duplicate
    obtain ⟨left, right, differ, holdsLeft, holdsRight⟩ := duplicate
    exact differ (same left right holdsLeft holdsRight)

/-- A position of a list of roots is the only one with a source file of a namespace. -/
def HoldsOnlyAt (workspace : Workspace) (roots : List Path) (wanted : Namespace) (place : Nat)
    (root : Path) : Prop :=
  roots[place]? = some root ∧ workspace.isFile (root.join wanted.sourcePath) = true ∧
    ∀ other, workspace.HoldsAt roots wanted.sourcePath other → other = place

theorem HoldsOnlyAt.not_isDuplicate {place : Nat} {root : Path}
    (only : workspace.HoldsOnlyAt roots wanted place root) :
    ¬ workspace.IsDuplicate roots wanted := by
  rw [not_isDuplicate_iff]
  intro left right holdsLeft holdsRight
  rw [only.2.2 left holdsLeft, only.2.2 right holdsRight]

theorem sourcesOf_eq_singleton_iff :
    workspace.sourcesOf wanted roots = [definition] ↔
      ∃ place root, workspace.HoldsOnlyAt roots wanted place root ∧
        definition = ⟨wanted, root, root.join wanted.sourcePath⟩ := by
  constructor
  · intro alone
    obtain ⟨front, root, rest, split, -, file, isDefinition, -⟩ := exists_split_of_sourcesOf alone
    have atPlace : roots[front.length]? = some root := by
      simp [split]
    have unique : ¬ workspace.IsDuplicate roots wanted := by
      intro duplicate
      obtain ⟨first, second, others, sources⟩ := sourcesOf_two_iff.2 duplicate
      rw [alone] at sources
      cases sources
    refine ⟨front.length, root, ⟨atPlace, file, ?_⟩, isDefinition⟩
    intro other holds
    exact not_isDuplicate_iff.1 unique other front.length holds ⟨root, atPlace, file⟩
  · intro located
    obtain ⟨place, root, only, rfl⟩ := located
    obtain ⟨found, -, sources⟩ := definitionOf_of_not_isDuplicate only.not_isDuplicate
    have member := mem_sourcesOf_of_getElem? only.1 only.2.1
    rw [sources] at member ⊢
    rw [Option.mem_toList.1 member]
    rfl

/-- The first two files of a namespace are what its lookup fails with. -/
theorem definitionOf_of_namesFirstTwo (names : workspace.NamesFirstTwo roots wanted failure) :
    workspace.definitionOf roots wanted = .error failure := by
  obtain ⟨front, first, between, second, rest, split, free, firstFile, secondFile, isFailure⟩ :=
    names
  have frontFree : workspace.sourcesOf wanted front = [] := by
    apply sourcesOf_eq_nil_of_forall
    intro root member
    exact free root (List.mem_append_left between member)
  have betweenFree : workspace.sourcesOf wanted between = [] := by
    apply sourcesOf_eq_nil_of_forall
    intro root member
    exact free root (List.mem_append_right front member)
  have sources :
      workspace.sourcesOf wanted roots =
        ⟨wanted, first, first.join wanted.sourcePath⟩ ::
          ⟨wanted, second, second.join wanted.sourcePath⟩ ::
            workspace.sourcesOf wanted rest := by
    rw [split, sourcesOf_append, frontFree, List.nil_append, sourcesOf_cons_of_isFile firstFile,
      sourcesOf_append, betweenFree, List.nil_append, sourcesOf_cons_of_isFile secondFile]
  rw [definitionOf, sources, isFailure]

/-! ## Several namespaces -/

/-- Each position of a list of namespaces adds the definition below its only root, or nothing if it
has a file below none. -/
inductive Locates (workspace : Workspace) (roots : List Path) :
    List Namespace → List Definition → Prop
  | done : Locates workspace roots [] []
  | found {wanted : Namespace} {place : Nat} {root : Path} {rest : List Namespace}
      {definitions : List Definition} (only : workspace.HoldsOnlyAt roots wanted place root)
      (others : Locates workspace roots rest definitions) :
      Locates workspace roots (wanted :: rest)
        (⟨wanted, root, root.join wanted.sourcePath⟩ :: definitions)
  | nowhere {wanted : Namespace} {rest : List Namespace} {definitions : List Definition}
      (missing : ∀ place, ¬ workspace.HoldsAt roots wanted.sourcePath place)
      (others : Locates workspace roots rest definitions) :
      Locates workspace roots (wanted :: rest) definitions

theorem locates_iff :
    Locates workspace roots namespaces definitions ↔
      (∀ wanted ∈ namespaces, ¬ workspace.IsDuplicate roots wanted) ∧
        definitions = namespaces.flatMap fun wanted => workspace.sourcesOf wanted roots := by
  constructor
  · intro locates
    induction locates with
    | done =>
        exact ⟨List.forall_mem_nil _, rfl⟩
    | found only others inductionHypothesis =>
        obtain ⟨unique, rfl⟩ := inductionHypothesis
        refine ⟨List.forall_mem_cons.2 ⟨only.not_isDuplicate, unique⟩, ?_⟩
        rw [List.flatMap_cons, sourcesOf_eq_singleton_iff.2 ⟨_, _, only, rfl⟩]
        rfl
    | nowhere missing others inductionHypothesis =>
        obtain ⟨unique, rfl⟩ := inductionHypothesis
        refine ⟨List.forall_mem_cons.2 ⟨?_, unique⟩, ?_⟩
        · intro duplicate
          obtain ⟨place, -, -, holds, -⟩ := duplicate
          exact missing place holds
        · rw [List.flatMap_cons, sourcesOf_eq_nil_iff.2 missing, List.nil_append]
  · intro unique
    obtain ⟨unique, rfl⟩ := unique
    induction namespaces with
    | nil =>
        exact .done
    | cons wanted rest inductionHypothesis =>
        rw [List.forall_mem_cons] at unique
        have others := inductionHypothesis unique.2
        rw [List.flatMap_cons]
        cases sources : workspace.sourcesOf wanted roots with
        | nil =>
            exact .nowhere (sourcesOf_eq_nil_iff.1 sources) others
        | cons first more =>
            cases more with
            | nil =>
                obtain ⟨place, root, only, rfl⟩ := sourcesOf_eq_singleton_iff.1 sources
                exact .found only others
            | cons second others =>
                exact absurd (sourcesOf_two_iff.1 ⟨first, second, others, sources⟩) unique.1

/-- The first duplicate of a list is what the lookup of the whole list fails with. -/
theorem definitionsOf_of_first_duplicate {before after : List Namespace}
    (unique : ∀ earlier ∈ before, ¬ workspace.IsDuplicate roots earlier)
    (names : workspace.NamesFirstTwo roots wanted failure) :
    workspace.definitionsOf roots (before ++ wanted :: after) = .error failure := by
  induction before with
  | nil =>
      rw [List.nil_append, definitionsOf, definitionOf_of_namesFirstTwo names]
      rfl
  | cons earlier others inductionHypothesis =>
      rw [List.forall_mem_cons] at unique
      rw [List.cons_append, definitionsOf_cons_of_not_isDuplicate unique.1,
        inductionHypothesis unique.2]
      rfl

/-- The lookup of namespaces succeeds exactly when each of them has a file below at most one position
of the list of roots; it then gives, for every position of the list of namespaces in order, the
definition below the only root, and nothing where there is none.  Otherwise it fails, exactly with the
first namespace that has files below two positions and with its files below the first two. -/
theorem definitionsOf_locates_or_names_first_duplicate (workspace : Workspace) (roots : List Path)
    (namespaces : List Namespace) :
    ((∃ definitions, workspace.definitionsOf roots namespaces = .ok definitions) ↔
      ∀ wanted ∈ namespaces, ∀ left right,
        workspace.HoldsAt roots wanted.sourcePath left →
          workspace.HoldsAt roots wanted.sourcePath right → left = right) ∧
    (∀ definitions,
      workspace.definitionsOf roots namespaces = .ok definitions ↔
        Locates workspace roots namespaces definitions) ∧
    ∀ failure,
      workspace.definitionsOf roots namespaces = .error failure ↔
        ∃ before wanted after,
          namespaces = before ++ wanted :: after ∧
            (∀ earlier ∈ before, ¬ workspace.IsDuplicate roots earlier) ∧
              workspace.NamesFirstTwo roots wanted failure := by
  refine ⟨?_, ?_, ?_⟩
  · simp only [← not_isDuplicate_iff]
    constructor
    · intro found
      obtain ⟨definitions, found⟩ := found
      exact unique_of_definitionsOf found
    · intro unique
      exact ⟨_, definitionsOf_of_unique unique⟩
  · intro definitions
    exact definitionsOf_eq_ok_iff.trans locates_iff.symm
  · intro failure
    constructor
    · intro failed
      obtain ⟨before, wanted, after, split, unique, -, names⟩ :=
        exists_first_duplicate_of_definitionsOf failed
      exact ⟨before, wanted, after, split, unique, names⟩
    · intro first
      obtain ⟨before, wanted, after, rfl, unique, names⟩ := first
      exact definitionsOf_of_first_duplicate unique names

end ClojureBuild.Workspace
