import ClojureBuild.Proofs.FileTree.Follow

/-!
# Growing trees

A tree grows when directories stay directories and files stay files, whatever else is put into it.
What pieces lead to then stays where it is, and a name that was missing has one place to be put.
-/

namespace ClojureBuild.FileTree

variable {tree before between after : FileTree} {location place : Location} {entry : Entry}
variable {pieces : List String}

/-- Everything in a tree is still there later, directories as directories and files as files. -/
structure Grows (before after : FileTree) : Prop where
  directories : ∀ {location}, before.HoldsDirectory location → after.HoldsDirectory location
  files : ∀ {location}, before.HoldsFile location → after.HoldsFile location

namespace Grows

theorem refl (tree : FileTree) : tree.Grows tree :=
  ⟨id, id⟩

theorem trans (first : before.Grows between) (second : between.Grows after) :
    before.Grows after :=
  ⟨second.directories ∘ first.directories, second.files ∘ first.files⟩

theorem present
    (plain : before.Plain) (grows : before.Grows after)
    (found : before.find? location = some entry) :
    ∃ later, after.find? location = some later := by
  rcases plain.holds_of_find? found with directory | file
  · obtain ⟨modified, held⟩ := grows.directories directory
    exact ⟨_, held⟩
  · obtain ⟨content, modified, mode, held⟩ := grows.files file
    exact ⟨_, held⟩

/-- A tree grows by a file put where no directory was. -/
theorem set_file
    (noDirectory : ¬ tree.HoldsDirectory location) (content : List UInt8) (modified : Instant)
    (mode : Nat) : tree.Grows (tree.set location (.file content modified mode)) := by
  constructor
  · rintro place ⟨changed, found⟩
    have differs : place ≠ location := by
      rintro rfl
      exact noDirectory ⟨changed, found⟩
    exact ⟨changed, by rw [find?_set_of_ne differs, found]⟩
  · rintro place ⟨text, changed, permissions, found⟩
    by_cases same : place = location
    · subst same
      exact ⟨content, modified, mode, find?_set_self tree place _⟩
    · exact ⟨text, changed, permissions, by rw [find?_set_of_ne same, found]⟩

theorem follows
    (plain : before.Plain) (grows : before.Grows after)
    (found : before.Follows location pieces place) : after.Follows location pieces place := by
  induction found with
  | done location =>
      exact Follows.done location
  | filler directory isFiller onward inductionHypothesis =>
      exact Follows.filler (grows.directories directory) isFiller inductionHypothesis
  | back directory onward inductionHypothesis =>
      exact Follows.back (grows.directories directory) inductionHypothesis
  | name directory solid noParent short present onward inductionHypothesis =>
      obtain ⟨entry, held⟩ := present
      exact Follows.name (grows.directories directory) solid noParent short
        (grows.present plain held) inductionHypothesis

/-- Pieces lead where they led before. -/
theorem follow
    (plain : before.Plain) (afterPlain : after.Plain) (grows : before.Grows after)
    (found : before.follow location pieces = .found place) :
    after.follow location pieces = .found place := by
  rw [follow_eq_found_iff plain] at found
  rw [follow_eq_found_iff afterPlain]
  exact grows.follows plain found

/-- What lies on the way down to an entry that was there before was there before as well. -/
theorem holdsDirectory_above
    (plain : before.Plain) (grows : before.Grows after) {names : List String}
    (present : before.find? (location ++ names) ≠ none)
    (directory : after.HoldsDirectory location) : before.HoldsDirectory location := by
  rcases Option.ne_none_iff_exists'.1 present with ⟨entry, found⟩
  by_cases whole : names = []
  · subst whole
    rw [List.append_nil] at found
    apply (plain.holds_of_find? found).resolve_right
    intro file
    exact (grows.files file).not_holdsDirectory directory
  · exact plain.holdsDirectory_of_append whole found

theorem follows_back
    (plain : before.Plain) (grows : before.Grows after)
    (noParent : ".." ∉ pieces) (present : before.find? place ≠ none)
    (found : after.Follows location pieces place) :
    before.Follows location pieces place ∧ ∃ names, place = location ++ names := by
  induction found with
  | done location =>
      exact ⟨Follows.done location, [], by simp⟩
  | filler directory isFiller onward inductionHypothesis =>
      obtain ⟨followed, names, rfl⟩ :=
        inductionHypothesis (fun member => noParent (List.mem_cons_of_mem _ member)) present
      have above := grows.holdsDirectory_above plain present directory
      exact ⟨Follows.filler above isFiller followed, names, rfl⟩
  | back directory onward inductionHypothesis =>
      exact absurd List.mem_cons_self noParent
  | @name location place piece rest directory solid notParent short later onward
      inductionHypothesis =>
      obtain ⟨followed, names, rfl⟩ :=
        inductionHypothesis (fun member => noParent (List.mem_cons_of_mem _ member)) present
      obtain ⟨entry, held⟩ := Option.ne_none_iff_exists'.1 present
      have child := plain.present_of_append held
      rw [List.append_assoc] at present
      have above := grows.holdsDirectory_above plain present directory
      exact ⟨Follows.name above solid notParent short child followed, [piece] ++ names,
        List.append_assoc _ _ _⟩

/-- Pieces without steps back led where they lead now, if there was something. -/
theorem follow_back
    (plain : before.Plain) (afterPlain : after.Plain) (grows : before.Grows after)
    (onward : ".." ∉ pieces) (present : before.find? place ≠ none)
    (found : after.follow location pieces = .found place) :
    before.follow location pieces = .found place ∧ ∃ names, place = location ++ names := by
  rw [follow_eq_found_iff afterPlain] at found
  rw [follow_eq_found_iff plain]
  exact grows.follows_back plain onward present found

end Grows

/-! ## Missing names -/

/-- Pieces that lead to a missing name lead to the directory that does not hold it. -/
theorem of_follow_eq_absent (found : tree.follow location pieces = .absent place) :
    ∃ rest name front,
      pieces = rest ++ [name] ∧ place = front ++ [name] ∧
        tree.follow location rest = .found front ∧ tree.HoldsDirectory front ∧
          tree.find? place = none ∧ (name ≠ "" ∧ name ≠ "." ∧ name ≠ "..") ∧
            name.length ≤ longestName := by
  induction pieces generalizing location with
  | nil =>
      rw [follow_nil] at found
      cases found
  | cons piece others inductionHypothesis =>
      have onward {next : Location}
          (same : ∀ pieces, tree.follow location (piece :: pieces) = tree.follow next pieces) :
          ∃ rest name front,
            piece :: others = rest ++ [name] ∧ place = front ++ [name] ∧
              tree.follow location rest = .found front ∧ tree.HoldsDirectory front ∧
                tree.find? place = none ∧ (name ≠ "" ∧ name ≠ "." ∧ name ≠ "..") ∧
                  name.length ≤ longestName := by
        rw [same] at found
        obtain ⟨rest, name, front, split, placed, toFront, remaining⟩ :=
          inductionHypothesis found
        exact ⟨piece :: rest, name, front, by rw [split]; rfl, placed, by rw [same, toFront],
          remaining⟩
      cases tree.pieceReading location piece with
      | failed failure step =>
          rw [follow, step] at found
          cases found
      | onward next isNext directory step =>
          exact onward fun pieces => step directory true _ pieces
      | name solid short directory step =>
          have atName (pieces : List String) :=
            step directory true (fun _ _ _ => .failed .tooManyLinks) pieces
          cases held : tree.find? (location ++ [piece]) with
          | none =>
              rw [follow, atName, held] at found
              obtain ⟨isPlace, isLast⟩ := eq_of_resolveMissing_eq_absent found
              rw [← isPlace, isLast]
              exact ⟨[], piece, location, rfl, rfl, rfl, directory, held, solid, short⟩
          | some entry =>
              simp only [held] at atName
              cases entry with
              | directory modified =>
                  exact onward atName
              | file content modified mode =>
                  exact onward atName
              | link target =>
                  simp [follow, atName] at found

/-- What a plain name leads to from a directory. -/
theorem follow_singleton
    (plain : tree.Plain) (directory : tree.HoldsDirectory location) {name : String}
    (fileName : FileName name) :
    tree.follow location [name] =
      if (tree.find? (location ++ [name])).isSome then .found (location ++ [name])
      else .absent (location ++ [name]) := by
  rw [follow_cons_of_holdsDirectory directory,
    if_neg (by simp [fileName.nonempty, fileName.notCurrent]), if_neg fileName.notParent,
    if_neg (Nat.not_lt.2 fileName.short)]
  cases held : tree.find? (location ++ [name]) with
  | none =>
      rfl
  | some entry =>
      cases entry with
      | directory modified =>
          rfl
      | file content modified mode =>
          rfl
      | link target =>
          exact absurd held (plain.linkless _ target)

end ClojureBuild.FileTree
