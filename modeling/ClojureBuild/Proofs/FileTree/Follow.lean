import ClojureBuild.Proofs.FileTree.Plain

/-!
# Following pieces in plain trees

Without links a path is followed from directory to directory, so where it leads is told by its
pieces alone: a name goes down, two dots go up and fillers stay.  Pieces are followed one part after
the other, and names of entries lead exactly to what the tree holds there.
-/

namespace ClojureBuild.FileTree

/-! ## Following -/

/-- Follow pieces where no link can occur. -/
def follow (tree : FileTree) : Location → List String → Resolution :=
  tree.followPieces true fun _ _ _ => .failed .tooManyLinks

/-- The location that pieces spell from a location on. -/
def spell : Location → List String → Location
  | location, [] => location
  | location, piece :: rest =>
      if piece = "" ∨ piece = "." then spell location rest
      else if piece = ".." then spell location.dropLast rest
      else spell (location ++ [piece]) rest

variable {tree : FileTree} {location place : Location}

theorem followPieces_eq_follow
    (plain : tree.Plain) (followLast : Bool)
    (onLink : Location → Path → List String → Resolution)
    (location : Location) (pieces : List String) :
    tree.followPieces followLast onLink location pieces = tree.follow location pieces := by
  induction pieces generalizing location with
  | nil =>
      rfl
  | cons piece rest inductionHypothesis =>
      simp only [follow, followPieces] at inductionHypothesis ⊢
      simp only [inductionHypothesis]
      cases found : tree.find? (location ++ [piece]) with
      | none =>
          rfl
      | some entry =>
          cases entry with
          | directory modified =>
              rfl
          | file content modified mode =>
              rfl
          | link target =>
              exact absurd found (plain.linkless _ target)

theorem followLinks_eq_follow
    (plain : tree.Plain) (followLast : Bool) (links : Nat)
    (location : Location) (pieces : List String) :
    tree.followLinks followLast links location pieces = tree.follow location pieces := by
  cases links with
  | zero =>
      exact followPieces_eq_follow plain followLast _ location pieces
  | succ links =>
      exact followPieces_eq_follow plain followLast _ location pieces

/-! ## One path -/

/-- How a path is read.  It is refused, or its pieces are followed, and that in every tree and whether
or not a link at its end is followed. -/
inductive PathReading (current : Location) (path : Path) : Prop
  | refused (failure : SystemFailure)
      (step : ∀ (tree : FileTree) followLast,
        tree.resolve followLast current path = .failed failure)
  | followed (written : path.text ≠ "") (noZero : '\x00' ∉ path.text.toList)
      (step : ∀ (tree : FileTree) followLast,
        tree.resolve followLast current path =
          tree.followLinks followLast linkLimit (startOf current path) path.body)

theorem pathReading (current : Location) (path : Path) : PathReading current path := by
  by_cases empty : path.text = ""
  · apply PathReading.refused .notFound
    intro tree followLast
    rw [resolve, if_pos empty]
  · by_cases zero : '\x00' ∈ path.text.toList
    · apply PathReading.refused .zeroInPath
      intro tree followLast
      rw [resolve, if_neg empty, if_pos (List.contains_iff_mem.2 zero)]
    · apply PathReading.followed empty zero
      intro tree followLast
      rw [resolve, if_neg empty, if_neg (by simpa using zero)]

theorem resolve_eq_follow
    (plain : tree.Plain) (followLast : Bool) (current : Location) {path : Path}
    (written : path.text ≠ "") (noZero : '\x00' ∉ path.text.toList) :
    tree.resolve followLast current path = tree.follow (startOf current path) path.body := by
  simp [resolve, written, noZero, followLinks_eq_follow plain]

/-- A path that resolves is written out and free of zero characters. -/
theorem written_of_resolve_found
    {followLast : Bool} {current : Location} {path : Path}
    (found : tree.resolve followLast current path = .found location) :
    path.text ≠ "" ∧ '\x00' ∉ path.text.toList := by
  cases pathReading current path with
  | refused failure step =>
      rw [step] at found
      cases found
  | followed written noZero step =>
      exact ⟨written, noZero⟩

/-! ## One piece -/

@[simp]
theorem follow_nil (tree : FileTree) (location : Location) :
    tree.follow location [] = .found location :=
  rfl

theorem followPieces_cons_of_not_holdsDirectory
    (noDirectory : ¬ tree.HoldsDirectory location) (followLast : Bool)
    (onLink : Location → Path → List String → Resolution) (piece : String) (rest : List String) :
    tree.followPieces followLast onLink location (piece :: rest) = .failed .notDirectory := by
  have none : ((tree.find? location).all fun entry => !entry.isDirectory) = true := by
    cases found : tree.find? location with
    | none =>
        rfl
    | some entry =>
        cases entry with
        | directory modified =>
            exact absurd ⟨modified, found⟩ noDirectory
        | file content modified mode =>
            rfl
        | link target =>
            rfl
  simp only [followPieces, none, if_true]

theorem followPieces_cons_of_holdsDirectory
    (directory : tree.HoldsDirectory location) (followLast : Bool)
    (onLink : Location → Path → List String → Resolution) (piece : String) (rest : List String) :
    tree.followPieces followLast onLink location (piece :: rest) =
      if piece = "" ∨ piece = "." then tree.followPieces followLast onLink location rest
      else if piece = ".." then tree.followPieces followLast onLink location.dropLast rest
      else if longestName < piece.length then .failed .nameTooLong
      else
        match tree.find? (location ++ [piece]) with
        | none => resolveMissing (location ++ [piece]) rest
        | some (.link target) =>
            if rest.isEmpty && !followLast then .found (location ++ [piece])
            else onLink location target rest
        | some _ => tree.followPieces followLast onLink (location ++ [piece]) rest := by
  obtain ⟨modified, found⟩ := directory
  have some : ((tree.find? location).all fun entry => !entry.isDirectory) = false := by
    simp [found, Entry.isDirectory]
  simp only [followPieces, some]
  cases tree.find? (location ++ [piece]) with
  | none =>
      rfl
  | some entry =>
      cases entry <;> rfl

/-- How a piece is read at a location.  It leads on, or is a name to be looked up, in this tree and in
any other one with a directory there. -/
inductive PieceReading (tree : FileTree) (location : Location) (piece : String) : Prop
  | failed (failure : SystemFailure)
      (step : ∀ followLast onLink rest,
        tree.followPieces followLast onLink location (piece :: rest) = .failed failure)
  | onward (next : Location) (isNext : next = location ∨ next = location.dropLast)
      (directory : tree.HoldsDirectory location)
      (step : ∀ {other : FileTree}, other.HoldsDirectory location → ∀ followLast onLink rest,
        other.followPieces followLast onLink location (piece :: rest) =
          other.followPieces followLast onLink next rest)
  | name (solid : piece ≠ "" ∧ piece ≠ "." ∧ piece ≠ "..")
      (short : piece.length ≤ longestName) (directory : tree.HoldsDirectory location)
      (step : ∀ {other : FileTree}, other.HoldsDirectory location → ∀ followLast onLink rest,
        other.followPieces followLast onLink location (piece :: rest) =
          match other.find? (location ++ [piece]) with
          | none => resolveMissing (location ++ [piece]) rest
          | some (.link target) =>
              if rest.isEmpty && !followLast then .found (location ++ [piece])
              else onLink location target rest
          | some _ => other.followPieces followLast onLink (location ++ [piece]) rest)

theorem pieceReading (tree : FileTree) (location : Location) (piece : String) :
    PieceReading tree location piece := by
  by_cases directory : tree.HoldsDirectory location
  · by_cases filler : piece = "" ∨ piece = "."
    · apply PieceReading.onward location (Or.inl rfl) directory
      intro other held followLast onLink rest
      rw [followPieces_cons_of_holdsDirectory held, if_pos filler]
    · by_cases parent : piece = ".."
      · apply PieceReading.onward location.dropLast (Or.inr rfl) directory
        intro other held followLast onLink rest
        rw [followPieces_cons_of_holdsDirectory held, if_neg filler, if_pos parent]
      · by_cases long : longestName < piece.length
        · apply PieceReading.failed .nameTooLong
          intro followLast onLink rest
          rw [followPieces_cons_of_holdsDirectory directory, if_neg filler, if_neg parent,
            if_pos long]
        · rw [not_or] at filler
          apply PieceReading.name ⟨filler.1, filler.2, parent⟩ (Nat.not_lt.1 long) directory
          intro other held followLast onLink rest
          rw [followPieces_cons_of_holdsDirectory held, if_neg (not_or.2 filler), if_neg parent,
            if_neg long]
  · apply PieceReading.failed .notDirectory
    intro followLast onLink rest
    exact followPieces_cons_of_not_holdsDirectory directory _ _ _ _

/-- What comes of a piece, whatever the pieces after it are. -/
inductive PieceStep (tree : FileTree) (location : Location) (piece : String) : Prop
  | onward (next : Location)
      (step : ∀ followLast onLink rest,
        tree.followPieces followLast onLink location (piece :: rest) =
          tree.followPieces followLast onLink next rest)
  | link (target : Path)
      (step : ∀ followLast onLink rest,
        tree.followPieces followLast onLink location (piece :: rest) =
          if rest.isEmpty && !followLast then .found (location ++ [piece])
          else onLink location target rest)
  | missing (absent : tree.find? (location ++ [piece]) = none)
      (step : ∀ followLast onLink rest,
        tree.followPieces followLast onLink location (piece :: rest) =
          resolveMissing (location ++ [piece]) rest)
  | failed (failure : SystemFailure)
      (step : ∀ followLast onLink rest,
        tree.followPieces followLast onLink location (piece :: rest) = .failed failure)

theorem pieceStep (tree : FileTree) (location : Location) (piece : String) :
    PieceStep tree location piece := by
  cases tree.pieceReading location piece with
  | failed failure step =>
      exact PieceStep.failed failure step
  | onward next isNext directory step =>
      exact PieceStep.onward next (step directory)
  | name solid short directory step =>
      have here := step directory
      cases held : tree.find? (location ++ [piece]) with
      | none =>
          apply PieceStep.missing held
          intro followLast onLink rest
          rw [here, held]
      | some entry =>
          cases entry with
          | directory modified =>
              apply PieceStep.onward (location ++ [piece])
              intro followLast onLink rest
              rw [here, held]
          | file content modified mode =>
              apply PieceStep.onward (location ++ [piece])
              intro followLast onLink rest
              rw [here, held]
          | link target =>
              apply PieceStep.link target
              intro followLast onLink rest
              rw [here, held]

/-! ## One piece in a plain tree -/

theorem follow_cons_of_not_holdsDirectory
    (noDirectory : ¬ tree.HoldsDirectory location)
    (piece : String) (rest : List String) :
    tree.follow location (piece :: rest) = .failed .notDirectory :=
  followPieces_cons_of_not_holdsDirectory noDirectory true _ piece rest

theorem follow_cons_of_holdsDirectory
    (directory : tree.HoldsDirectory location) (piece : String) (rest : List String) :
    tree.follow location (piece :: rest) =
      if piece = "" ∨ piece = "." then tree.follow location rest
      else if piece = ".." then tree.follow location.dropLast rest
      else if longestName < piece.length then .failed .nameTooLong
      else
        match tree.find? (location ++ [piece]) with
        | none => resolveMissing (location ++ [piece]) rest
        | some (.link _) => .failed .tooManyLinks
        | some _ => tree.follow (location ++ [piece]) rest := by
  rw [follow, followPieces_cons_of_holdsDirectory directory]
  cases tree.find? (location ++ [piece]) with
  | none =>
      rfl
  | some entry =>
      cases entry with
      | directory changed =>
          rfl
      | file content changed mode =>
          rfl
      | link target =>
          simp

theorem resolveMissing_ne_found (missing : Location) (rest : List String) :
    resolveMissing missing rest ≠ .found location := by
  unfold resolveMissing
  split
  · simp
  · split
    · simp
    · simp

theorem eq_of_resolveMissing_eq_absent {missing : Location} {rest : List String}
    (absent : resolveMissing missing rest = .absent place) : missing = place ∧ rest = [] := by
  unfold resolveMissing at absent
  split at absent
  · next last =>
      cases absent
      exact ⟨rfl, List.isEmpty_iff.1 last⟩
  · split at absent
    · cases absent
    · cases absent

/-- How one piece is followed to an entry. -/
theorem follow_cons_eq_found_iff
    (plain : tree.Plain) (piece : String) (rest : List String) :
    tree.follow location (piece :: rest) = .found place ↔
      tree.HoldsDirectory location ∧
        (if piece = "" ∨ piece = "." then tree.follow location rest = .found place
        else if piece = ".." then tree.follow location.dropLast rest = .found place
        else piece.length ≤ longestName ∧
          (∃ entry, tree.find? (location ++ [piece]) = some entry) ∧
            tree.follow (location ++ [piece]) rest = .found place) := by
  by_cases directory : tree.HoldsDirectory location
  · rw [follow_cons_of_holdsDirectory directory]
    by_cases filler : piece = "" ∨ piece = "."
    · simp [filler, directory]
    · by_cases parent : piece = ".."
      · simp [parent, directory]
      · by_cases long : longestName < piece.length
        · simp [filler, parent, long, Nat.not_le.2 long]
        · have short := Nat.not_lt.1 long
          cases found : tree.find? (location ++ [piece]) with
          | none =>
              simp [filler, parent, long, resolveMissing_ne_found]
          | some entry =>
              cases entry with
              | directory changed =>
                  simp [filler, parent, long, short, directory]
              | file content changed mode =>
                  simp [filler, parent, long, short, directory]
              | link target =>
                  exact absurd found (plain.linkless _ target)
  · rw [follow_cons_of_not_holdsDirectory directory]
    simp [directory]

/-! ## The way to an entry -/

/-- The way from a location over pieces to an entry, when no link is on it. -/
inductive Follows (tree : FileTree) : Location → List String → Location → Prop
  | done (location : Location) : tree.Follows location [] location
  | filler {location place : Location} {piece : String} {rest : List String}
      (directory : tree.HoldsDirectory location) (isFiller : piece = "" ∨ piece = ".")
      (onward : tree.Follows location rest place) : tree.Follows location (piece :: rest) place
  | back {location place : Location} {rest : List String}
      (directory : tree.HoldsDirectory location)
      (onward : tree.Follows location.dropLast rest place) :
      tree.Follows location (".." :: rest) place
  | name {location place : Location} {piece : String} {rest : List String}
      (directory : tree.HoldsDirectory location)
      (solid : ¬ (piece = "" ∨ piece = ".")) (noParent : piece ≠ "..")
      (short : piece.length ≤ longestName)
      (present : ∃ entry, tree.find? (location ++ [piece]) = some entry)
      (onward : tree.Follows (location ++ [piece]) rest place) :
      tree.Follows location (piece :: rest) place

theorem follow_eq_found_iff
    (plain : tree.Plain) (location : Location) (pieces : List String) :
    tree.follow location pieces = .found place ↔ tree.Follows location pieces place := by
  constructor
  · intro found
    induction pieces generalizing location with
    | nil =>
        rw [follow_nil] at found
        cases found
        exact Follows.done _
    | cons piece rest inductionHypothesis =>
        obtain ⟨directory, onward⟩ := (follow_cons_eq_found_iff plain piece rest).1 found
        by_cases isFiller : piece = "" ∨ piece = "."
        · rw [if_pos isFiller] at onward
          exact Follows.filler directory isFiller (inductionHypothesis location onward)
        · rw [if_neg isFiller] at onward
          by_cases parent : piece = ".."
          · rw [if_pos parent] at onward
            subst parent
            exact Follows.back directory (inductionHypothesis _ onward)
          · rw [if_neg parent] at onward
            obtain ⟨short, present, behind⟩ := onward
            exact Follows.name directory isFiller parent short present
              (inductionHypothesis _ behind)
  · intro follows
    induction follows with
    | done location =>
        rfl
    | filler directory isFiller onward inductionHypothesis =>
        rw [follow_cons_eq_found_iff plain, if_pos isFiller]
        exact ⟨directory, inductionHypothesis⟩
    | back directory onward inductionHypothesis =>
        rw [follow_cons_eq_found_iff plain, if_neg (by decide), if_pos rfl]
        exact ⟨directory, inductionHypothesis⟩
    | name directory solid noParent short present onward inductionHypothesis =>
        rw [follow_cons_eq_found_iff plain, if_neg solid, if_neg noParent]
        exact ⟨directory, short, present, inductionHypothesis⟩

namespace Follows

variable {between : Location} {pieces front rest : List String}

theorem append (first : tree.Follows location front between)
    (second : tree.Follows between rest place) : tree.Follows location (front ++ rest) place := by
  induction first with
  | done location =>
      exact second
  | filler directory isFiller onward inductionHypothesis =>
      exact filler directory isFiller (inductionHypothesis second)
  | back directory onward inductionHypothesis =>
      exact back directory (inductionHypothesis second)
  | name directory solid noParent short present onward inductionHypothesis =>
      exact name directory solid noParent short present (inductionHypothesis second)

theorem exists_of_append (whole : tree.Follows location (front ++ rest) place) :
    ∃ between, tree.Follows location front between ∧ tree.Follows between rest place := by
  induction front generalizing location with
  | nil =>
      exact ⟨location, done location, whole⟩
  | cons piece front inductionHypothesis =>
      cases whole with
      | filler directory isFiller onward =>
          obtain ⟨between, first, second⟩ := inductionHypothesis onward
          exact ⟨between, filler directory isFiller first, second⟩
      | back directory onward =>
          obtain ⟨between, first, second⟩ := inductionHypothesis onward
          exact ⟨between, back directory first, second⟩
      | name directory solid noParent short present onward =>
          obtain ⟨between, first, second⟩ := inductionHypothesis onward
          exact ⟨between, name directory solid noParent short present first, second⟩

/-- Only directories lead to directories. -/
theorem holdsDirectory (follows : tree.Follows location pieces place)
    (directory : tree.HoldsDirectory place) : tree.HoldsDirectory location := by
  cases follows with
  | done location =>
      exact directory
  | filler above isFiller onward =>
      exact above
  | back above onward =>
      exact above
  | name above solid noParent short present onward =>
      exact above

theorem eq_spell (follows : tree.Follows location pieces place) :
    place = spell location pieces := by
  induction follows with
  | done location =>
      rfl
  | filler directory isFiller onward inductionHypothesis =>
      rw [spell, if_pos isFiller]
      exact inductionHypothesis
  | back directory onward inductionHypothesis =>
      rw [spell, if_neg (by decide), if_pos rfl]
      exact inductionHypothesis
  | name directory solid noParent short present onward inductionHypothesis =>
      rw [spell, if_neg solid, if_neg noParent]
      exact inductionHypothesis

/-- Fillers may be left out. -/
theorem filter (follows : tree.Follows location pieces place) :
    tree.Follows location (pieces.filter fun piece => !Path.isFiller piece) place := by
  induction follows with
  | done location =>
      exact done location
  | filler directory isFiller onward inductionHypothesis =>
      rw [Path.filter_cons_of_filler isFiller]
      exact inductionHypothesis
  | back directory onward inductionHypothesis =>
      exact back directory inductionHypothesis
  | name directory solid noParent short present onward inductionHypothesis =>
      rw [Path.filter_cons_of_solid solid]
      exact name directory solid noParent short present inductionHypothesis

/-- Fillers may be put in on the way to a directory. -/
theorem of_filter (directory : tree.HoldsDirectory place)
    (follows : tree.Follows location (pieces.filter fun piece => !Path.isFiller piece) place) :
    tree.Follows location pieces place := by
  induction pieces generalizing location with
  | nil =>
      exact follows
  | cons piece rest inductionHypothesis =>
      by_cases isFiller : piece = "" ∨ piece = "."
      · rw [Path.filter_cons_of_filler isFiller] at follows
        have onward := inductionHypothesis follows
        exact filler (onward.holdsDirectory directory) isFiller onward
      · rw [Path.filter_cons_of_solid isFiller] at follows
        cases follows with
        | filler above filled onward =>
            exact absurd filled isFiller
        | back above onward =>
            exact back above (inductionHypothesis onward)
        | name above solid noParent short present onward =>
            exact name above solid noParent short present (inductionHypothesis onward)

end Follows

/-! ## Several pieces -/

/-- Pieces are followed to an entry one part after the other. -/
theorem follow_append_eq_found_iff
    (plain : tree.Plain) (front rest : List String) :
    tree.follow location (front ++ rest) = .found place ↔
      ∃ between, tree.follow location front = .found between ∧
        tree.follow between rest = .found place := by
  simp only [follow_eq_found_iff plain]
  constructor
  · exact Follows.exists_of_append
  · rintro ⟨between, first, second⟩
    exact first.append second

/-- Pieces that lead to an entry lead to the location that they spell. -/
theorem eq_spell_of_follow
    (plain : tree.Plain) {pieces : List String}
    (found : tree.follow location pieces = .found place) :
    place = spell location pieces :=
  ((follow_eq_found_iff plain location pieces).1 found).eq_spell

theorem spell_append (location : Location) (front rest : List String) :
    spell location (front ++ rest) = spell (spell location front) rest := by
  induction front generalizing location with
  | nil =>
      rfl
  | cons piece front inductionHypothesis =>
      simp only [List.cons_append, spell, inductionHypothesis]
      split
      · rfl
      · split
        · rfl
        · rfl

theorem spell_of_plain
    (location : Location) {names : List String} (plainNames : ∀ name ∈ names, PlainName name) :
    spell location names = location ++ names := by
  induction names generalizing location with
  | nil =>
      simp [spell]
  | cons head tail inductionHypothesis =>
      have headPlain := plainNames head List.mem_cons_self
      simp [spell, headPlain.nonempty, headPlain.notCurrent, headPlain.notParent,
        inductionHypothesis (location ++ [head])
          (fun name member => plainNames name (List.mem_cons_of_mem head member))]

theorem spell_filter (location : Location) (pieces : List String) :
    spell location (pieces.filter fun piece => !Path.isFiller piece) = spell location pieces := by
  induction pieces generalizing location with
  | nil =>
      rfl
  | cons piece rest inductionHypothesis =>
      by_cases filler : piece = "" ∨ piece = "."
      · rw [Path.filter_cons_of_filler filler, spell, if_pos filler]
        exact inductionHypothesis location
      · rw [Path.filter_cons_of_solid filler, spell, spell, if_neg filler, if_neg filler]
        simp only [inductionHypothesis]

/-- Names of entries lead to what the tree holds. -/
theorem follow_names
    (plain : tree.Plain) {names : List String} {entry : Entry}
    (found : tree.find? (location ++ names) = some entry) :
    tree.follow location names = .found (location ++ names) := by
  rw [follow_eq_found_iff plain]
  induction names generalizing location with
  | nil =>
      rw [List.append_nil]
      exact Follows.done location
  | cons head tail inductionHypothesis =>
      have headName := plain.fileName_of_mem found head List.mem_cons_self
      have solid : ¬ (head = "" ∨ head = ".") :=
        not_or.2 ⟨headName.nonempty, headName.notCurrent⟩
      have directory := plain.holdsDirectory_of_append (List.cons_ne_nil head tail) found
      rw [List.append_cons] at found ⊢
      exact Follows.name directory solid headName.notParent headName.short
        (plain.present_of_append found) (inductionHypothesis found)

/-- Fillers may be left out of pieces that lead to an entry. -/
theorem follow_filter
    (plain : tree.Plain) {pieces : List String}
    (found : tree.follow location pieces = .found place) :
    tree.follow location (pieces.filter fun piece => !Path.isFiller piece) = .found place := by
  rw [follow_eq_found_iff plain] at found ⊢
  exact found.filter

theorem follow_of_filter
    (plain : tree.Plain) (directory : tree.HoldsDirectory place) {pieces : List String}
    (found : tree.follow location (pieces.filter fun piece => !Path.isFiller piece) =
      .found place) :
    tree.follow location pieces = .found place := by
  rw [follow_eq_found_iff plain] at found ⊢
  exact found.of_filter directory

/-- Pieces on the way to a directory lead to directories. -/
theorem follow_front_holdsDirectory
    (plain : tree.Plain) {front rest : List String} (directory : tree.HoldsDirectory place)
    (found : tree.follow location (front ++ rest) = .found place) :
    ∃ between, tree.follow location front = .found between ∧ tree.HoldsDirectory between := by
  obtain ⟨between, toBetween, onward⟩ := (follow_append_eq_found_iff plain front rest).1 found
  exact ⟨between, toBetween, ((follow_eq_found_iff plain _ _).1 onward).holdsDirectory directory⟩

theorem follow_append_of_found
    {front : List String} (found : tree.follow location front = .found place)
    (rest : List String) :
    tree.follow location (front ++ rest) = tree.follow place rest := by
  induction front generalizing location with
  | nil =>
      rw [follow_nil] at found
      cases found
      rfl
  | cons piece front inductionHypothesis =>
      rw [follow] at found inductionHypothesis ⊢
      rw [List.cons_append]
      cases tree.pieceStep location piece with
      | onward next step =>
          rw [step] at found ⊢
          exact inductionHypothesis found
      | link target step =>
          simp [step] at found
      | missing isAbsent step =>
          rw [step] at found
          exact absurd found (resolveMissing_ne_found _ front)
      | failed failure step =>
          rw [step] at found
          cases found

end ClojureBuild.FileTree
