import ClojureBuild.Proofs.Workspace.Absolute
import ClojureBuild.Proofs.Workspace.AtomicCopies
import ClojureBuild.Proofs.Workspace.Directories

/-!
# Destinations

A destination is what names joined to a path lead to.  It is looked up in the directory that the path
opens to, also when the path is relative or empty.  A file that is moved to a destination lands in that
directory, and a copy makes its temporary file there, too.
-/

namespace ClojureBuild

namespace FileTree

variable {tree : FileTree} {location place : Location} {rest : List String} {last : String}

/-- Where pieces that end in a name lead somewhere, the pieces before it lead to a directory. -/
theorem exists_directory_of_follow_concat (plainName : PlainName last)
    (succeeds : ∀ failure, tree.follow location (rest ++ [last]) ≠ .failed failure) :
    ∃ directory, tree.follow location rest = .found directory ∧
      tree.HoldsDirectory directory ∧ last.length ≤ longestName := by
  induction rest generalizing location with
  | nil =>
      rw [List.nil_append] at succeeds
      by_cases directory : tree.HoldsDirectory location
      · refine ⟨location, rfl, directory, ?_⟩
        by_contra long
        apply succeeds .nameTooLong
        rw [follow_cons_of_holdsDirectory directory,
          if_neg (by simp [plainName.nonempty, plainName.notCurrent]), if_neg plainName.notParent,
          if_pos (Nat.not_le.1 long)]
      · exact absurd (follow_cons_of_not_holdsDirectory directory last []) (succeeds _)
  | cons piece rest inductionHypothesis =>
      rw [List.cons_append] at succeeds
      cases tree.pieceStep location piece with
      | onward next step =>
          have same (pieces : List String) :
              tree.follow location (piece :: pieces) = tree.follow next pieces :=
            step true _ pieces
          simp only [same] at succeeds ⊢
          exact inductionHypothesis succeeds
      | link target step =>
          have fails := step true (fun _ _ _ => .failed .tooManyLinks) (rest ++ [last])
          rw [Bool.not_true, Bool.and_false, if_neg Bool.false_ne_true] at fails
          exact absurd fails (succeeds _)
      | missing absent step =>
          have fails := step true (fun _ _ _ => .failed .tooManyLinks) (rest ++ [last])
          have more : (rest ++ [last]).isEmpty = false := by
            simp
          have named : (rest ++ [last]).all String.isEmpty = false := by
            simp [plainName.nonempty]
          rw [resolveMissing, more, named] at fails
          exact absurd fails (succeeds _)
      | failed failure step =>
          exact absurd (step true _ (rest ++ [last])) (succeeds failure)

end FileTree

namespace Workspace

variable {workspace before after : Workspace} {base source : Path}
variable {place location directory other : Location} {names : List String} {entry : Entry}

theorem startOf_below
    (current : Location) (base : Path) (plainNames : ∀ name ∈ names, PlainName name) :
    FileTree.startOf current (base.below names) = FileTree.startOf current base := by
  by_cases written : base.text = ""
  · have empty : base = ⟨""⟩ := Path.eq_empty written
    cases names with
    | nil =>
        rfl
    | cons head tail =>
        have headPlain := plainNames head List.mem_cons_self
        have tailPlain : ∀ name ∈ tail, PlainName name :=
          fun name member => plainNames name (List.mem_cons_of_mem head member)
        have relative : (Path.mk "").isAbsolute = false := rfl
        rw [empty, Path.below_cons, Path.join_empty, FileTree.startOf, FileTree.startOf,
          Path.isAbsolute_below headPlain.nonempty tailPlain, headPlain.isAbsolute, relative]
  · simp only [FileTree.startOf, Path.isAbsolute_below written plainNames]

theorem text_below_ne_empty
    (base : Path) (nonempty : names ≠ []) (plainNames : ∀ name ∈ names, PlainName name) :
    (base.below names).text ≠ "" := by
  obtain ⟨front, last, split⟩ := (List.eq_nil_or_concat names).resolve_left nonempty
  rw [List.concat_eq_append] at split
  rw [split, Path.below_concat]
  exact Path.text_join_plain_ne_empty _ (plainNames last (by simp [split]))

theorem spelled_below
    (workspace : Workspace) (base : Path) (plainNames : ∀ name ∈ names, PlainName name) :
    workspace.spelled (base.below names) = workspace.spelled base ++ names := by
  rw [spelled_eq_spell_steps, spelled_eq_spell_steps, startOf_below _ _ plainNames,
    Path.steps_below base plainNames, FileTree.spell_append, FileTree.spell_of_plain _ plainNames]

theorem spelled_eq_of_same (workspace : Workspace) {left right : Path}
    (same : left.same right = true) : workspace.spelled left = workspace.spelled right := by
  rw [spelled_eq_spell_steps, spelled_eq_spell_steps, Path.steps_eq_of_same same,
    FileTree.startOf, FileTree.startOf, Path.isAbsolute_eq_of_same same]

/-! ## Looking destinations up -/

namespace Opens

theorem unique (opens : workspace.Opens base directory) (otherwise : workspace.Opens base other) :
    directory = other := by
  have same := opens.followed.symm.trans otherwise.followed
  cases same
  rfl

/-- A path opens to the same directory in a tree that has grown. -/
theorem of_grows
    (plain : before.tree.Plain) (afterPlain : after.tree.Plain)
    (current : after.current = before.current) (grows : before.tree.Grows after.tree)
    (opens : before.Opens base directory) : after.Opens base directory where
  zeroFree := opens.zeroFree
  followed := by
    rw [current]
    exact grows.follow plain afterPlain opens.followed
  directory := grows.directories opens.directory

end Opens

/-- A destination leads to what the tree holds at its names. -/
theorem status_below_iff_opens
    (plain : workspace.tree.Plain) (nonempty : names ≠ [])
    (plainNames : ∀ name ∈ names, PlainName name) :
    workspace.status (base.below names) = .ok (place, entry) ↔
      ∃ directory, workspace.Opens base directory ∧ place = directory ++ names ∧
        workspace.tree.find? place = some entry := by
  obtain ⟨front, body, filtered⟩ := Path.exists_body_below base nonempty plainNames
  have written := text_below_ne_empty base nonempty plainNames
  rw [status_eq_ok_iff plain, Path.zero_notMem_text_iff, startOf_below _ _ plainNames, body,
    Path.steps_below base plainNames, FileTree.follow_append_eq_found_iff plain]
  constructor
  · intro looked
    obtain ⟨⟨-, zeroFree⟩, ⟨directory, toDirectory, behind⟩, found⟩ := looked
    obtain ⟨first, others, split⟩ := List.exists_cons_of_ne_nil nonempty
    have holds : workspace.tree.HoldsDirectory directory := by
      rw [split] at behind
      exact ((FileTree.follow_cons_eq_found_iff plain first others).1 behind).1
    refine ⟨directory, ⟨?_, ?_, holds⟩, ?_, found⟩
    · exact fun step member => zeroFree step (List.mem_append_left names member)
    · rw [← filtered]
      exact FileTree.follow_filter plain toDirectory
    · rw [FileTree.eq_spell_of_follow plain behind, FileTree.spell_of_plain _ plainNames]
  · intro held
    obtain ⟨directory, opens, rfl, found⟩ := held
    refine ⟨⟨written, ?_⟩, ⟨directory, ?_, FileTree.follow_names plain found⟩, found⟩
    · intro step member
      cases List.mem_append.1 member with
      | inl inBase =>
          exact opens.zeroFree step inBase
      | inr inNames =>
          exact (plain.fileName_of_mem found step inNames).noZero
    · apply FileTree.follow_of_filter plain opens.directory
      rw [filtered]
      exact opens.followed

/-- A destination is up to date when something not older stands there. -/
theorem isFresh_below_iff_opens
    (plain : workspace.tree.Plain) (nonempty : names ≠ [])
    (plainNames : ∀ name ∈ names, PlainName name)
    (found : workspace.status source = .ok (location, entry)) :
    workspace.isFresh (base.below names) source = .ok true ↔
      ∃ directory, workspace.Opens base directory ∧
        workspace.NotOlder (directory ++ names) (workspace.lastModified location entry) := by
  have known : workspace.modified? source = .ok (some (workspace.lastModified location entry)) :=
    (modified?_eq_ok_some_iff _ _ _).2 ⟨location, entry, found, rfl⟩
  rw [isFresh_of_modified? known]
  simp only [modified?_eq_ok_some_iff, status_below_iff_opens plain nonempty plainNames, NotOlder]
  constructor
  · rintro ⟨written, ⟨reached, output, ⟨directory, opens, rfl, held⟩, rfl⟩, order⟩
    exact ⟨directory, opens, output, held, order⟩
  · rintro ⟨directory, opens, output, held, order⟩
    exact ⟨_, ⟨_, output, ⟨directory, opens, rfl, held⟩, rfl⟩, order⟩

/-! ## Moving files to destinations -/

theorem endsInSlash_below
    (nonempty : names ≠ []) (plainNames : ∀ name ∈ names, PlainName name) :
    (base.below names).endsInSlash = false := by
  obtain ⟨initial, last, split⟩ := (List.eq_nil_or_concat names).resolve_left nonempty
  rw [List.concat_eq_append] at split
  rw [split, Path.below_append]
  exact Path.endsInSlash_join_plain _ (plainNames last (by simp [split]))

theorem withoutTrailingSlashes_below
    (base : Path) (nonempty : names ≠ []) (plainNames : ∀ name ∈ names, PlainName name) :
    (base.below names).withoutTrailingSlashes = base.below names :=
  Path.withoutTrailingSlashes_eq_self (endsInSlash_below nonempty plainNames)

/-- Where a name after a directory can lead. -/
theorem resolveName_below_of_not_failed
    (plain : workspace.tree.Plain) (nonempty : names ≠ [])
    (plainNames : ∀ name ∈ names, PlainName name)
    (succeeds : ∀ failure, workspace.resolveName (base.below names) ≠ .failed failure) :
    ∃ directory, workspace.Opens base directory ∧
      workspace.tree.HoldsDirectory (directory ++ names).dropLast ∧
        (∀ name ∈ names, FileName name) ∧
          workspace.resolveName (base.below names) =
            if (workspace.tree.find? (directory ++ names)).isSome then .found (directory ++ names)
            else .absent (directory ++ names) := by
  have written := text_below_ne_empty base nonempty plainNames
  rw [resolveName, withoutTrailingSlashes_below base nonempty plainNames, resolve] at succeeds ⊢
  have noZero : '\x00' ∉ (base.below names).text.toList := by
    intro zero
    apply succeeds .zeroInPath
    simp [FileTree.resolve, written, zero]
  rw [FileTree.resolve_eq_follow plain false _ written noZero, startOf_below _ _ plainNames]
    at succeeds ⊢
  rw [Path.zero_notMem_text_iff, Path.steps_below base plainNames] at noZero
  obtain ⟨initial, last, split⟩ := (List.eq_nil_or_concat names).resolve_left nonempty
  rw [List.concat_eq_append] at split
  have lastPlain := plainNames last (by simp [split])
  have initialPlain : ∀ name ∈ initial, PlainName name :=
    fun name member => plainNames name (by simp [split, member])
  obtain ⟨front, body, filtered⟩ := Path.exists_body_below base nonempty plainNames
  rw [body, split, ← List.append_assoc] at succeeds ⊢
  obtain ⟨above, toAbove, holds, short⟩ :=
    FileTree.exists_directory_of_follow_concat lastPlain succeeds
  obtain ⟨directory, toDirectory, behind⟩ :=
    (FileTree.follow_append_eq_found_iff plain front initial).1 toAbove
  have isAbove : above = directory ++ initial := by
    rw [FileTree.eq_spell_of_follow plain behind, FileTree.spell_of_plain _ initialPlain]
  have opened : workspace.tree.HoldsDirectory directory :=
    ((FileTree.follow_eq_found_iff plain _ _).1 behind).holdsDirectory holds
  have lastName : FileName last := ⟨lastPlain, noZero last (by simp [split]), short⟩
  refine ⟨directory, ⟨?_, ?_, opened⟩, ?_, ?_, ?_⟩
  · exact fun step member => noZero step (List.mem_append_left names member)
  · rw [← filtered]
    exact FileTree.follow_filter plain toDirectory
  · rw [← List.append_assoc, List.dropLast_concat, ← isAbove]
    exact holds
  · intro name member
    cases List.mem_append.1 member with
    | inl inInitial =>
        obtain ⟨modified, held⟩ := holds
        rw [isAbove] at held
        exact plain.fileName_of_mem held name inInitial
    | inr isLast =>
        rw [List.mem_singleton.1 isLast]
        exact lastName
  · rw [FileTree.follow_append_of_found toAbove, FileTree.follow_singleton plain holds lastName,
      isAbove, List.append_assoc]

/-- A file that can be moved to a destination lands in an existing directory, and in place of none. -/
theorem of_placeFor_below
    (plain : workspace.tree.Plain) (nonempty : names ≠ [])
    (plainNames : ∀ name ∈ names, PlainName name)
    (placed : workspace.placeFor (base.below names) = .ok place) :
    ∃ directory, workspace.Opens base directory ∧ place = directory ++ names ∧
      workspace.tree.HoldsDirectory (directory ++ names).dropLast ∧
        ¬ workspace.tree.HoldsDirectory (directory ++ names) ∧ ∀ name ∈ names, FileName name := by
  have succeeds : ∀ failure, workspace.resolveName (base.below names) ≠ .failed failure := by
    intro failure failed
    rw [placeFor, failed] at placed
    cases placed
  obtain ⟨directory, opens, holds, fileNames, resolved⟩ :=
    resolveName_below_of_not_failed plain nonempty plainNames succeeds
  refine ⟨directory, opens, ?_⟩
  rw [placeFor, resolved, endsInSlash_below nonempty plainNames] at placed
  cases held : workspace.tree.find? (directory ++ names) with
  | none =>
      rw [held] at placed
      cases placed
      refine ⟨rfl, holds, ?_, fileNames⟩
      rintro ⟨modified, isDirectory⟩
      rw [held] at isDirectory
      cases isDirectory
  | some present =>
      rw [held] at placed
      simp only [Option.isSome_some, if_true, Bool.false_eq_true, if_false, held] at placed
      split at placed
      · cases placed
      · split at placed
        · cases placed
        · next noDirectory =>
            cases placed
            refine ⟨rfl, holds, ?_, fileNames⟩
            rw [FileTree.holdsDirectory_iff, held]
            exact noDirectory

/-! ## Directories for destinations -/

/-- The locations of the directories that a file below a location needs. -/
def Needed (place : Location) (names : List String) (location : Location) : Prop :=
  ∃ initial, initial ≠ [] ∧ initial <+: names.dropLast ∧ location = place ++ initial

/-- A location that a file needs lies strictly above it. -/
theorem longer_of_needed {inner : List String} (needed : Needed place names (place ++ inner)) :
    ∃ rest, rest ≠ [] ∧ names = inner ++ rest := by
  obtain ⟨initial, nonempty, isInitial, same⟩ := needed
  have isInner : inner = initial := List.append_cancel_left same
  subst isInner
  obtain ⟨rest, rfl⟩ := isInitial.trans (List.dropLast_prefix names)
  refine ⟨rest, ?_, rfl⟩
  rintro rfl
  have length := isInitial.length_le
  have positive := List.length_pos_iff.2 nonempty
  rw [List.append_nil, List.length_dropLast] at length
  omega

/-- What holds a location that a file needs lies strictly above the file, too. -/
theorem longer_of_holds_needed {inner : List String} (needed : Needed place names location)
    (holds : location.dropLast = place ++ inner) : ∃ rest, rest ≠ [] ∧ names = inner ++ rest := by
  obtain ⟨initial, nonempty, isInitial, rfl⟩ := needed
  have isNeeded : Needed place names (place ++ initial) := ⟨initial, nonempty, isInitial, rfl⟩
  obtain ⟨rest, -, rfl⟩ := longer_of_needed isNeeded
  rw [List.dropLast_append_of_ne_nil nonempty] at holds
  obtain rfl : initial.dropLast = inner := List.append_cancel_left holds
  refine ⟨initial.getLast nonempty :: rest, by simp, ?_⟩
  rw [List.append_cons, List.dropLast_append_getLast]

/-- The directory of a file lies strictly above it. -/
theorem longer_of_holds {inner : List String} (nonempty : names ≠ [])
    (holds : (place ++ names).dropLast = place ++ inner) :
    ∃ rest, rest ≠ [] ∧ names = inner ++ rest := by
  rw [List.dropLast_append_of_ne_nil nonempty] at holds
  obtain rfl : names.dropLast = inner := List.append_cancel_left holds
  exact ⟨[names.getLast nonempty], by simp, (List.dropLast_append_getLast nonempty).symm⟩

/-- The directories for a destination are made on the way to the path or are those that the file
needs below it. -/
theorem onlyMade_makeDirectories_parent
    (plain : workspace.tree.Plain) (nonempty : names ≠ [])
    (plainNames : ∀ name ∈ names, PlainName name) {parent : Path}
    (isParent : (base.below names).parent? = some parent) :
    OnlyMade
      (fun location =>
        OnTheWayFrom (FileTree.startOf workspace.current base) base location ∨
          Needed (workspace.spelled base) names location)
      workspace (workspace.makeDirectories parent).2 := by
  obtain ⟨only, -⟩ := onlyMade_makeDirectories_from plain parent
  obtain ⟨sameKind, parentSteps⟩ := Path.of_parent?_eq_some isParent
  have start :
      FileTree.startOf workspace.current parent = FileTree.startOf workspace.current base := by
    rw [← startOf_below workspace.current base plainNames, FileTree.startOf, FileTree.startOf,
      sameKind]
  rw [Path.steps_below base plainNames, List.dropLast_append_of_ne_nil nonempty] at parentSteps
  apply only.mono
  rintro location ⟨initial, isInitial, isSpelled⟩
  rw [parentSteps] at isInitial
  rw [start] at isSpelled
  -- an initial part ends before the names or goes some way down along them
  cases List.prefix_or_prefix_of_prefix isInitial (List.prefix_append base.steps names.dropLast) with
  | inl within =>
      exact Or.inl ⟨initial, within, isSpelled⟩
  | inr beyond =>
      obtain ⟨inner, rfl⟩ := beyond
      have isInner := (List.prefix_append_right_inj base.steps).1 isInitial
      by_cases atBase : inner = []
      · subst atBase
        exact Or.inl ⟨base.steps, List.prefix_rfl, by simpa using isSpelled⟩
      · have innerPlain : ∀ name ∈ inner, PlainName name :=
          fun name member => plainNames name (List.dropLast_subset names (isInner.subset member))
        refine Or.inr ⟨inner, atBase, isInner, ?_⟩
        rw [← isSpelled, FileTree.spell_append, ← spelled_eq_spell_steps,
          FileTree.spell_of_plain _ innerPlain]

/-- Once a path opens nothing more is made on its way. -/
theorem OnlyMade.onlyNeeded
    (only : OnlyMade
      (fun location =>
        OnTheWayFrom (FileTree.startOf before.current base) base location ∨
          Needed place names location)
      before after)
    (plain : before.tree.Plain) (opens : before.Opens base place) :
    OnlyMade (Needed place names) before after := by
  apply only.refine
  rintro location absent (⟨initial, ⟨rest, split⟩, isSpelled⟩ | needed)
  · obtain ⟨reached, toReached, modified, held⟩ :=
      FileTree.follow_front_holdsDirectory plain opens.directory
        (split.symm ▸ opens.followed : before.tree.follow _ (initial ++ rest) = .found place)
    rw [← isSpelled, ← FileTree.eq_spell_of_follow plain toReached, held] at absent
    cases absent
  · exact needed

/-! ## Temporary files -/

theorem steps_pathOf (plainNames : ∀ name ∈ location, PlainName name) :
    (FileTree.pathOf location).steps = location := by
  have top : (Path.mk "/").steps = [] := by
    decide +kernel
  have isPath : FileTree.pathOf location = (Path.mk "/").below location := by
    cases location with
    | nil =>
        rfl
    | cons first rest =>
        have relative := Path.isAbsolute_joinWith rest (plainNames first List.mem_cons_self)
        rw [Path.below_eq_join _ (by simp) plainNames,
          Path.join_of_endsInSlash relative (by decide) (by decide +kernel)]
        rfl
  rw [isPath, Path.steps_below _ plainNames, top, List.nil_append]

theorem temporaryDirectory_isAbsolute (workspace : Workspace) (parent : Path) :
    (workspace.temporaryDirectory parent).isAbsolute = true := by
  rw [temporaryDirectory]
  split
  · assumption
  · exact Path.isAbsolute_join_of_left workspace.currentPath_isAbsolute

/-- Relative or not, a path leads to where the directory for its temporary files is. -/
theorem placeOf_temporaryDirectory {parent : Path}
    (plainNames : ∀ name ∈ FileTree.startOf workspace.current parent, PlainName name) :
    placeOf (workspace.temporaryDirectory parent) = workspace.spelled parent := by
  rw [spelled_eq_spell_steps, placeOf, temporaryDirectory]
  rw [FileTree.startOf] at plainNames ⊢
  split
  · rfl
  · next relative =>
      rw [if_neg relative] at plainNames
      rw [Path.steps_join, if_neg relative, currentPath, steps_pathOf plainNames,
        FileTree.spell_append, FileTree.spell_of_plain [] plainNames, List.nil_append]

/-- A copy to a destination makes its temporary file in the directory of the destination. -/
theorem eq_of_worksIn_below
    (plain : workspace.tree.Plain) (nonempty : names ≠ [])
    (plainNames : ∀ name ∈ names, PlainName name) (opens : workspace.Opens base place)
    (works : workspace.WorksIn (base.below names) directory) :
    directory = (place ++ names).dropLast := by
  obtain ⟨parent, isParent, leads⟩ := works
  obtain ⟨sameKind, parentSteps⟩ := Path.of_parent?_eq_some isParent
  rw [Path.steps_below base plainNames, List.dropLast_append_of_ne_nil nonempty] at parentSteps
  have frontPlain : ∀ name ∈ names.dropLast, PlainName name :=
    fun name member => plainNames name (List.dropLast_subset names member)
  have start : FileTree.startOf workspace.current parent =
      FileTree.startOf workspace.current base := by
    rw [← startOf_below workspace.current base plainNames, FileTree.startOf, FileTree.startOf,
      sameKind]
  have startPlain : ∀ name ∈ FileTree.startOf workspace.current parent, PlainName name := by
    obtain ⟨modified, held⟩ :=
      ((FileTree.follow_eq_found_iff plain _ _).1 opens.followed).holdsDirectory opens.directory
    rw [← List.nil_append (FileTree.startOf workspace.current base)] at held
    rw [start]
    exact fun name member => (plain.fileName_of_mem held name member).toPlainName
  rw [eq_placeOf_of_leadsToDirectory plain (workspace.temporaryDirectory_isAbsolute parent) leads,
    placeOf_temporaryDirectory startPlain, spelled_eq_spell_steps, start, parentSteps,
    FileTree.spell_append, ← spelled_eq_spell_steps, FileTree.spell_of_plain _ frontPlain,
    List.dropLast_append_of_ne_nil nonempty, opens.eq_spelled plain]

end Workspace

end ClojureBuild
