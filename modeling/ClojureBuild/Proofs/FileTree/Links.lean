import ClojureBuild.Proofs.FileTree.Follow

/-!
# Following links

Pieces are followed through a tree with any links.  Where they lead does not change when entries are
put where nothing was, except that a missing name may come to lead to something.
-/

namespace ClojureBuild

/-- Pieces lead to a location: an entry stands there, or is missing and put there later. -/
def Resolution.Settles (place : Location) (filled : Prop) (resolution : Resolution) : Prop :=
  resolution = .found place ∨ (resolution = .absent place ∧ filled)

namespace FileTree

variable {tree before between after : FileTree} {location place : Location}
variable {pieces : List String}
variable {followLast : Bool} {onLink onLinkLater : Location → Path → List String → Resolution}

/-! ## Missing names -/

/-- Pieces end in a name that a directory could have an entry of and does not. -/
def LacksName (tree : FileTree) (pieces : List String) (place : Location) : Prop :=
  ∃ directory last, pieces.getLast? = some last ∧ place = directory ++ [last] ∧
    tree.HoldsDirectory directory ∧ tree.find? place = none ∧
      (last ≠ "" ∧ last ≠ "." ∧ last ≠ "..") ∧ last.length ≤ longestName

theorem LacksName.cons (lacks : tree.LacksName pieces place) (piece : String) :
    tree.LacksName (piece :: pieces) place := by
  obtain ⟨directory, last, isLast, named⟩ := lacks
  exact ⟨directory, last, by simp [List.getLast?_cons, isLast], named⟩

theorem find?_of_followPieces_eq_absent
    (onward : ∀ location target rest, onLink location target rest = .absent place →
      tree.find? place = none)
    (absent : tree.followPieces followLast onLink location pieces = .absent place) :
    tree.find? place = none := by
  induction pieces generalizing location with
  | nil =>
      cases absent
  | cons piece rest inductionHypothesis =>
      cases tree.pieceStep location piece with
      | onward next step =>
          rw [step] at absent
          exact inductionHypothesis absent
      | link target step =>
          rw [step] at absent
          split at absent
          · cases absent
          · exact onward location target rest absent
      | missing isAbsent step =>
          rw [step] at absent
          rw [← (eq_of_resolveMissing_eq_absent absent).1]
          exact isAbsent
      | failed failure step =>
          rw [step] at absent
          cases absent

theorem find?_of_followLinks_eq_absent {links : Nat}
    (absent : tree.followLinks followLast links location pieces = .absent place) :
    tree.find? place = none := by
  induction links generalizing location pieces with
  | zero =>
      apply find?_of_followPieces_eq_absent _ absent
      intro location target rest failed
      cases failed
  | succ links inductionHypothesis =>
      apply find?_of_followPieces_eq_absent _ absent
      intro location target rest absentThere
      exact inductionHypothesis absentThere

theorem find?_of_resolve_eq_absent {current : Location} {path : Path}
    (absent : tree.resolve followLast current path = .absent place) :
    tree.find? place = none := by
  cases pathReading current path with
  | refused failure step =>
      rw [step] at absent
      cases absent
  | followed written noZero step =>
      rw [step] at absent
      exact find?_of_followLinks_eq_absent absent

theorem of_resolveMissing {missing : Location} {rest : List String}
    (unslashed : ∀ front, rest ≠ front ++ [""])
    (absent : resolveMissing missing rest = .absent place ∨
      resolveMissing missing rest = .absentDirectory place) : missing = place ∧ rest = [] := by
  cases absent with
  | inl absent =>
      exact eq_of_resolveMissing_eq_absent absent
  | inr slashed =>
      exfalso
      unfold resolveMissing at slashed
      split at slashed
      · cases slashed
      · next some =>
          split at slashed
          · next empty =>
              rw [List.isEmpty_iff] at some
              obtain ⟨front, last, split⟩ := (List.eq_nil_or_concat rest).resolve_left some
              rw [List.concat_eq_append] at split
              have isEmpty := List.all_eq_true.1 empty last (by simp [split])
              rw [String.isEmpty_iff.1 isEmpty] at split
              exact unslashed front split
          · cases slashed

theorem rest_ne_of_cons_ne {piece : String} {rest : List String}
    (unslashed : ∀ front, front ≠ [] → piece :: rest ≠ front ++ [""]) (front : List String) :
    rest ≠ front ++ [""] := by
  intro split
  apply unslashed (piece :: front) (List.cons_ne_nil piece front)
  rw [split, List.cons_append]

/-- Pieces that do not end in a slash and lead to a missing name end in this name.  It is one that an
entry of the directory before it could have. -/
theorem of_followPieces_missing
    (unslashed : ∀ front, front ≠ [] → pieces ≠ front ++ [""])
    (onward : ∀ location target {rest}, rest ≠ [] → (∀ front, rest ≠ front ++ [""]) →
      (onLink location target rest = .absent place ∨
        onLink location target rest = .absentDirectory place) → tree.LacksName rest place)
    (missing : tree.followPieces false onLink location pieces = .absent place ∨
      tree.followPieces false onLink location pieces = .absentDirectory place) :
    tree.LacksName pieces place := by
  induction pieces generalizing location with
  | nil =>
      simp [followPieces] at missing
  | cons piece rest inductionHypothesis =>
      have restUnslashed := rest_ne_of_cons_ne unslashed
      have later {next : Location}
          (missing : tree.followPieces false onLink next rest = .absent place ∨
            tree.followPieces false onLink next rest = .absentDirectory place) :
          tree.LacksName (piece :: rest) place :=
        (inductionHypothesis (fun front _ => restUnslashed front) missing).cons piece
      cases tree.pieceReading location piece with
      | failed failure step =>
          simp [step] at missing
      | onward next isNext directory step =>
          rw [step directory] at missing
          exact later missing
      | name solid short directory step =>
          rw [step directory] at missing
          cases held : tree.find? (location ++ [piece]) with
          | none =>
              rw [held] at missing
              obtain ⟨isPlace, isLast⟩ := of_resolveMissing restUnslashed missing
              rw [isPlace] at held
              exact ⟨location, piece, by rw [isLast, List.getLast?_singleton], isPlace.symm,
                directory, held, solid, short⟩
          | some entry =>
              rw [held] at missing
              cases entry with
              | directory modified =>
                  exact later missing
              | file content modified mode =>
                  exact later missing
              | link target =>
                  by_cases last : rest = []
                  · simp [last] at missing
                  · have goesOn : ¬ (rest.isEmpty && !false) = true := by
                      simp [last]
                    simp only [if_neg goesOn] at missing
                    exact (onward location target last restUnslashed missing).cons piece

theorem of_followLinks_missing {links : Nat}
    (unslashed : ∀ front, front ≠ [] → pieces ≠ front ++ [""])
    (missing : tree.followLinks false links location pieces = .absent place ∨
      tree.followLinks false links location pieces = .absentDirectory place) :
    tree.LacksName pieces place := by
  induction links generalizing location pieces with
  | zero =>
      apply of_followPieces_missing unslashed _ missing
      intro location target rest _ _ failed
      simp at failed
  | succ links inductionHypothesis =>
      apply of_followPieces_missing unslashed _ missing
      intro location target rest nonempty restUnslashed missingThere
      have wholeUnslashed : ∀ front, front ≠ [] → target.body ++ rest ≠ front ++ [""] := by
        intro front _ split
        obtain ⟨initial, last, named⟩ := (List.eq_nil_or_concat rest).resolve_left nonempty
        rw [List.concat_eq_append] at named
        rw [named, ← List.append_assoc] at split
        rw [List.singleton_inj.1 (List.append_inj' split rfl).2] at named
        exact restUnslashed initial named
      obtain ⟨directory, last, isLast, lacks⟩ := inductionHypothesis wholeUnslashed missingThere
      refine ⟨directory, last, ?_, lacks⟩
      -- the last piece is one of those after the link
      rwa [List.getLast?_append_of_ne_nil _ nonempty] at isLast

/-! ## More entries -/

/-- Every entry of a tree is in another one as well. -/
def Within (before after : FileTree) : Prop :=
  ∀ {location entry}, before.find? location = some entry → after.find? location = some entry

namespace Within

theorem refl (tree : FileTree) : tree.Within tree :=
  id

theorem trans (first : before.Within between) (second : between.Within after) :
    before.Within after :=
  fun found => second (first found)

theorem holdsDirectory (within : before.Within after)
    (directory : before.HoldsDirectory location) : after.HoldsDirectory location := by
  obtain ⟨modified, found⟩ := directory
  exact ⟨modified, within found⟩

theorem followPieces (within : before.Within after)
    (onward : ∀ location target rest,
      (onLink location target rest).Settles place (after.HoldsDirectory place) →
        onLinkLater location target rest = .found place)
    (settles : (before.followPieces followLast onLink location pieces).Settles place
      (after.HoldsDirectory place)) :
    after.followPieces followLast onLinkLater location pieces = .found place := by
  induction pieces generalizing location with
  | nil =>
      cases settles with
      | inl found =>
          exact found
      | inr absent =>
          cases absent.1
  | cons piece rest inductionHypothesis =>
      cases before.pieceReading location piece with
      | failed failure step =>
          rw [step] at settles
          simp [Resolution.Settles] at settles
      | onward next isNext directory step =>
          rw [step directory] at settles
          rw [step (within.holdsDirectory directory)]
          exact inductionHypothesis settles
      | name solid short directory step =>
          rw [step directory] at settles
          rw [step (within.holdsDirectory directory)]
          cases held : before.find? (location ++ [piece]) with
          | none =>
              rw [held] at settles
              cases settles with
              | inl found =>
                  exact absurd found (resolveMissing_ne_found _ rest)
              | inr absent =>
                  obtain ⟨isAbsent, modified, filled⟩ := absent
                  obtain ⟨isPlace, isLast⟩ := eq_of_resolveMissing_eq_absent isAbsent
                  rw [isPlace, isLast, filled]
                  rfl
          | some entry =>
              rw [held] at settles
              rw [within held]
              cases entry with
              | directory modified =>
                  exact inductionHypothesis settles
              | file content modified mode =>
                  exact inductionHypothesis settles
              | link target =>
                  dsimp only at settles ⊢
                  split at settles
                  · next stops =>
                      rw [if_pos stops]
                      cases settles with
                      | inl found =>
                          exact found
                      | inr absent =>
                          cases absent.1
                  · next goesOn =>
                      rw [if_neg goesOn]
                      exact onward location target rest settles

/-- Pieces lead on where they led, and to what has been put where they led to a missing name. -/
theorem followLinks (within : before.Within after) (links : Nat)
    (settles : (before.followLinks followLast links location pieces).Settles place
      (after.HoldsDirectory place)) :
    after.followLinks followLast links location pieces = .found place := by
  induction links generalizing location pieces with
  | zero =>
      apply within.followPieces _ settles
      intro location target rest failed
      simp [Resolution.Settles] at failed
  | succ links inductionHypothesis =>
      apply within.followPieces _ settles
      intro location target rest settlesThere
      exact inductionHypothesis settlesThere

theorem resolve (within : before.Within after) {current : Location} {path : Path}
    (settles : (before.resolve followLast current path).Settles place
      (after.HoldsDirectory place)) :
    after.resolve followLast current path = .found place := by
  cases pathReading current path with
  | refused failure step =>
      simp [step, Resolution.Settles] at settles
  | followed written noZero step =>
      rw [step] at settles ⊢
      exact within.followLinks linkLimit settles

end Within

/-! ## One part after the other -/

/-- Go on after a link, with a bound on the number of links. -/
def followLink (tree : FileTree) (followLast : Bool) :
    Nat → Location → Path → List String → Resolution
  | 0, _, _, _ => .failed .tooManyLinks
  | links + 1, location, target, rest =>
      tree.followLinks followLast links (startOf location target) (target.body ++ rest)

theorem followLinks_eq (tree : FileTree) (followLast : Bool) (links : Nat) :
    tree.followLinks followLast links =
      tree.followPieces followLast (tree.followLink followLast links) := by
  cases links with
  | zero =>
      rfl
  | succ links =>
      rfl

/-- What comes after pieces is followed from where they lead, with the links that are left. -/
def Continues (tree : FileTree) (place : Location) (whole : Bool → List String → Resolution) :
    Prop :=
  ∃ left, ∀ followLast more, more ≠ [] →
    whole followLast more = tree.followLinks followLast left place more

theorem continues_of_followLink {links : Nat} {front : List String}
    (onward : ∀ location target rest,
      tree.followLink true links location target rest = .found place →
        tree.Continues place fun followLast more =>
          tree.followLink followLast links location target (rest ++ more))
    (found : tree.followLinks true links location front = .found place) :
    tree.Continues place fun followLast more =>
      tree.followLinks followLast links location (front ++ more) := by
  induction front generalizing location with
  | nil =>
      rw [followLinks_eq] at found
      cases found
      exact ⟨links, fun _ _ _ => rfl⟩
  | cons piece rest inductionHypothesis =>
      simp only [followLinks_eq] at found inductionHypothesis
      simp only [followLinks_eq tree _ links, List.cons_append]
      cases tree.pieceStep location piece with
      | onward next step =>
          rw [step] at found
          simp only [step]
          exact inductionHypothesis found
      | link target step =>
          rw [step, Bool.not_true, Bool.and_false, if_neg Bool.false_ne_true] at found
          obtain ⟨left, same⟩ := onward location target rest found
          refine ⟨left, ?_⟩
          intro followLast more nonempty
          have notLast : ¬ ((rest ++ more).isEmpty && !followLast) = true := by
            simp [nonempty]
          dsimp only
          rw [step, if_neg notLast]
          exact same followLast more nonempty
      | missing isAbsent step =>
          rw [step] at found
          exact absurd found (resolveMissing_ne_found _ rest)
      | failed failure step =>
          rw [step] at found
          cases found

/-- Pieces are followed one part after the other. -/
theorem continues_followLinks {links : Nat} {front : List String}
    (found : tree.followLinks true links location front = .found place) :
    tree.Continues place fun followLast more =>
      tree.followLinks followLast links location (front ++ more) := by
  induction links generalizing location front with
  | zero =>
      apply continues_of_followLink _ found
      intro location target rest failed
      cases failed
  | succ links inductionHypothesis =>
      apply continues_of_followLink _ found
      intro location target rest foundThere
      obtain ⟨left, same⟩ := inductionHypothesis foundThere
      refine ⟨left, ?_⟩
      intro followLast more nonempty
      dsimp only
      rw [followLink, ← List.append_assoc]
      exact same followLast more nonempty

theorem exists_found_of_followLink {links : Nat} {front more : List String}
    (nonempty : more ≠ [])
    (onward : ∀ location target rest,
      tree.followLink followLast links location target (rest ++ more) = .found place →
        ∃ between, tree.followLink true links location target rest = .found between)
    (found : tree.followLinks followLast links location (front ++ more) = .found place) :
    ∃ between, tree.followLinks true links location front = .found between := by
  simp only [followLinks_eq] at found ⊢
  induction front generalizing location with
  | nil =>
      exact ⟨location, rfl⟩
  | cons piece rest inductionHypothesis =>
      rw [List.cons_append] at found
      cases tree.pieceStep location piece with
      | onward next step =>
          rw [step] at found
          simp only [step]
          exact inductionHypothesis found
      | link target step =>
          have notLast : ¬ ((rest ++ more).isEmpty && !followLast) = true := by
            simp [nonempty]
          rw [step, if_neg notLast] at found
          simp only [step, Bool.not_true, Bool.and_false, Bool.false_eq_true, if_false]
          exact onward location target rest found
      | missing isAbsent step =>
          rw [step] at found
          exact absurd found (resolveMissing_ne_found _ _)
      | failed failure step =>
          rw [step] at found
          cases found

/-- Where pieces lead somewhere, an initial part of them does. -/
theorem exists_found_of_append {links : Nat} {front more : List String} (nonempty : more ≠ [])
    (found : tree.followLinks followLast links location (front ++ more) = .found place) :
    ∃ between, tree.followLinks true links location front = .found between := by
  induction links generalizing location front with
  | zero =>
      apply exists_found_of_followLink nonempty _ found
      intro location target rest failed
      cases failed
  | succ links inductionHypothesis =>
      apply exists_found_of_followLink nonempty _ found
      intro location target rest foundThere
      rw [followLink, ← List.append_assoc] at foundThere
      exact inductionHypothesis foundThere

/-! ## Entries that are found -/

theorem WellFormed.holdsDirectory_dropLast (wellFormed : tree.WellFormed)
    (directory : tree.HoldsDirectory location) : tree.HoldsDirectory location.dropLast := by
  cases List.eq_nil_or_concat location with
  | inl top =>
      rw [top] at directory ⊢
      exact directory
  | inr nonempty =>
      obtain ⟨above, name, split⟩ := nonempty
      rw [List.concat_eq_append] at split
      obtain ⟨modified, found⟩ := directory
      rw [split] at found ⊢
      rw [List.dropLast_concat]
      exact wellFormed.parent found

theorem present_of_followPieces (wellFormed : tree.WellFormed)
    (onward : ∀ location target rest, tree.find? location ≠ none →
      onLink location target rest = .found place → tree.find? place ≠ none)
    (present : tree.find? location ≠ none)
    (found : tree.followPieces followLast onLink location pieces = .found place) :
    tree.find? place ≠ none := by
  induction pieces generalizing location with
  | nil =>
      cases found
      exact present
  | cons piece rest inductionHypothesis =>
      cases tree.pieceReading location piece with
      | failed failure step =>
          rw [step] at found
          cases found
      | onward next isNext directory step =>
          rw [step directory] at found
          apply inductionHypothesis _ found
          cases isNext with
          | inl same =>
              rwa [same]
          | inr above =>
              obtain ⟨modified, held⟩ := wellFormed.holdsDirectory_dropLast directory
              simp [above, held]
      | name solid short directory step =>
          rw [step directory] at found
          cases held : tree.find? (location ++ [piece]) with
          | none =>
              rw [held] at found
              exact absurd found (resolveMissing_ne_found _ rest)
          | some entry =>
              have childPresent : tree.find? (location ++ [piece]) ≠ none := by
                simp [held]
              rw [held] at found
              cases entry with
              | directory modified =>
                  exact inductionHypothesis childPresent found
              | file content modified mode =>
                  exact inductionHypothesis childPresent found
              | link target =>
                  dsimp only at found
                  split at found
                  · cases found
                    exact childPresent
                  · exact onward location target rest present found

theorem present_of_followLinks {links : Nat} (wellFormed : tree.WellFormed)
    (present : tree.find? location ≠ none)
    (found : tree.followLinks followLast links location pieces = .found place) :
    tree.find? place ≠ none := by
  induction links generalizing location pieces with
  | zero =>
      apply present_of_followPieces wellFormed _ present found
      intro location target rest _ failed
      cases failed
  | succ links inductionHypothesis =>
      apply present_of_followPieces wellFormed _ present found
      intro location target rest presentThere foundThere
      apply inductionHypothesis _ foundThere
      rw [startOf]
      split
      · obtain ⟨modified, top⟩ := wellFormed.top
        simp [top]
      · exact presentThere

/-- In a well-formed tree there is an entry wherever a path leads. -/
theorem present_of_resolve {current : Location} {path : Path} (wellFormed : tree.WellFormed)
    (found : tree.resolve followLast current path = .found place) : tree.find? place ≠ none := by
  have written := written_of_resolve_found found
  simp only [resolve, if_neg written.1, List.contains_iff_mem, if_neg written.2] at found
  apply present_of_followLinks wellFormed _ found
  -- the first piece is looked up in a directory
  obtain ⟨first, rest, split⟩ := List.exists_cons_of_ne_nil path.body_ne_nil
  intro absent
  have noDirectory : ¬ tree.HoldsDirectory (startOf current path) := by
    intro directory
    obtain ⟨modified, held⟩ := directory
    rw [absent] at held
    cases held
  rw [split, followLinks_eq, followPieces_cons_of_not_holdsDirectory noDirectory] at found
  cases found

/-! ## One name after pieces -/

/-- What a name leads to from a directory. -/
theorem followLinks_name {links : Nat} {name : String} (directory : tree.HoldsDirectory place)
    (fileName : FileName name) :
    tree.followLinks followLast links place [name] =
      match tree.find? (place ++ [name]) with
      | none => .absent (place ++ [name])
      | some (.link target) =>
          if followLast then tree.followLink true links place target []
          else .found (place ++ [name])
      | some _ => .found (place ++ [name]) := by
  rw [followLinks_eq, followPieces_cons_of_holdsDirectory directory,
    if_neg (by simp [fileName.nonempty, fileName.notCurrent]), if_neg fileName.notParent,
    if_neg (Nat.not_lt.2 fileName.short)]
  cases tree.find? (place ++ [name]) with
  | none =>
      rfl
  | some entry =>
      cases entry with
      | directory modified =>
          rfl
      | file content modified mode =>
          rfl
      | link target =>
          cases followLast <;> rfl

/-- A name that leads somewhere is one of an entry in a directory. -/
theorem of_followLinks_name {links : Nat} {name : String} {found : Location}
    (plainName : PlainName name)
    (leads : tree.followLinks followLast links place [name] = .found found) :
    tree.HoldsDirectory place ∧ tree.find? (place ++ [name]) ≠ none := by
  rw [followLinks_eq] at leads
  by_cases directory : tree.HoldsDirectory place
  · refine ⟨directory, ?_⟩
    intro missing
    rw [followPieces_cons_of_holdsDirectory directory,
      if_neg (by simp [plainName.nonempty, plainName.notCurrent]), if_neg plainName.notParent,
      missing] at leads
    split at leads
    · cases leads
    · exact absurd leads (resolveMissing_ne_found _ [])
  · rw [followPieces_cons_of_not_holdsDirectory directory] at leads
    cases leads

theorem followLinks_filler {links : Nat} {filler : String} {found : Location}
    (isFiller : Path.isFiller filler = true) :
    tree.followLinks followLast links place [filler] = .found found ↔
      found = place ∧ tree.HoldsDirectory place := by
  rw [followLinks_eq]
  by_cases directory : tree.HoldsDirectory place
  · rw [followPieces_cons_of_holdsDirectory directory,
      if_pos ((Path.isFiller_iff filler).1 isFiller)]
    simp [followPieces, directory, eq_comm]
  · rw [followPieces_cons_of_not_holdsDirectory directory]
    simp [directory]

/-- With a filler after them, pieces lead to what they lead to if that is a directory. -/
theorem followLinks_append_filler_iff {links : Nat} {filler : String}
    (isFiller : Path.isFiller filler = true) :
    tree.followLinks true links location (pieces ++ [filler]) = .found place ↔
      tree.followLinks true links location pieces = .found place ∧ tree.HoldsDirectory place := by
  constructor
  · intro found
    obtain ⟨between, toBetween⟩ := exists_found_of_append (List.cons_ne_nil filler []) found
    obtain ⟨left, continues⟩ := continues_followLinks toBetween
    dsimp only at continues
    rw [continues true [filler] (List.cons_ne_nil filler []), followLinks_filler isFiller] at found
    obtain ⟨same, directory⟩ := found
    rw [same]
    exact ⟨toBetween, directory⟩
  · intro found
    obtain ⟨left, continues⟩ := continues_followLinks found.1
    dsimp only at continues
    rw [continues true [filler] (List.cons_ne_nil filler []), followLinks_filler isFiller]
    exact ⟨rfl, found.2⟩

end FileTree

end ClojureBuild
