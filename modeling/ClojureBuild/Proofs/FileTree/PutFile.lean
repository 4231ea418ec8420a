import ClojureBuild.Proofs.FileTree.Links

/-!
# A file put at one location

Two trees differ at one location only, where the second one holds a file and the first one no
directory.  A path that named the location leads to the file, unless it went on behind the location;
and when nothing stood there, every other path leads where it led or nowhere.
-/

namespace ClojureBuild

namespace Resolution

/-- A resolution ends at a location, whether or not something stands there. -/
def Names (place : Location) (resolution : Resolution) : Prop :=
  resolution = .found place ∨ resolution = .absent place ∨ resolution = .absentDirectory place

/-- All of several resolutions find a location, or all fail for the same reason. -/
def AllFind {ι : Type} (place : Location) (resolutions : ι → Resolution) : Prop :=
  (∀ i, resolutions i = .found place) ∨ ∃ failure, ∀ i, resolutions i = .failed failure

/-- A location that nothing stood at may be found, and what went on behind it fails. -/
def Gains (place : Location) (before after : Resolution) : Prop :=
  after = before ∨ (before = .absent place ∧ after = .found place) ∨
    ∃ failure, after = .failed failure

end Resolution

namespace FileTree

variable {before after : FileTree} {location place : Location} {pieces : List String}
variable {followLast : Bool}

theorem names_resolveMissing_iff {missing : Location} {rest : List String} :
    (resolveMissing missing rest).Names place ↔
      missing = place ∧ rest.all String.isEmpty = true := by
  cases rest with
  | nil =>
      simp [resolveMissing, Resolution.Names]
  | cons piece others =>
      by_cases empty : (piece :: others).all String.isEmpty = true
      · simp [resolveMissing, Resolution.Names, empty]
      · simp [resolveMissing, Resolution.Names, empty]

/-- A file stands where no directory stood, and nothing else has changed. -/
structure PutsFile (place : Location) (before after : FileTree) : Prop where
  file : after.HoldsFile place
  noDirectory : ¬ before.HoldsDirectory place
  elsewhere : ∀ {other}, other ≠ place → after.find? other = before.find? other

namespace PutsFile

theorem set {content : List UInt8} {modified : Instant} {mode : Nat}
    (noDirectory : ¬ before.HoldsDirectory place) :
    PutsFile place before (before.set place (.file content modified mode)) where
  file := ⟨content, modified, mode, find?_set_self _ _ _⟩
  noDirectory := noDirectory
  elsewhere := fun differs => find?_set_of_ne differs _ _

theorem holdsDirectory_iff (puts : PutsFile place before after) :
    after.HoldsDirectory location ↔ before.HoldsDirectory location := by
  by_cases here : location = place
  · rw [here]
    exact iff_of_false puts.file.not_holdsDirectory puts.noDirectory
  · rw [HoldsDirectory, puts.elsewhere here, HoldsDirectory]

/-- Nothing lies behind a file. -/
theorem followPieces_cons (puts : PutsFile place before after)
    (onLink : Location → Path → List String → Resolution) (piece : String) (rest : List String) :
    after.followPieces followLast onLink place (piece :: rest) = .failed .notDirectory :=
  followPieces_cons_of_not_holdsDirectory puts.file.not_holdsDirectory _ _ _ _

/-! ## Paths that named the location -/

section Named

variable {ι : Type} {afters : ι → FileTree} {followLasts : ι → Bool}

theorem allFind_followPieces {onLink : Location → Path → List String → Resolution}
    {onLinkLater : ι → Location → Path → List String → Resolution}
    (puts : ∀ i, PutsFile place before (afters i))
    (onward : ∀ location target rest, (onLink location target rest).Names place →
      Resolution.AllFind place fun i => onLinkLater i location target rest)
    (names : (before.followPieces false onLink location pieces).Names place) :
    Resolution.AllFind place fun i =>
      (afters i).followPieces (followLasts i) (onLinkLater i) location pieces := by
  induction pieces generalizing location with
  | nil =>
      have here : location = place := by
        simpa [followPieces, Resolution.Names] using names
      rw [here]
      exact Or.inl fun _ => rfl
  | cons piece rest inductionHypothesis =>
      cases before.pieceReading location piece with
      | failed failure step =>
          simp [step, Resolution.Names] at names
      | onward next isNext directory step =>
          rw [step directory] at names
          simp only [fun i => step ((puts i).holdsDirectory_iff.2 directory)]
          exact inductionHypothesis names
      | name solid short directory step =>
          rw [step directory] at names
          simp only [fun i => step ((puts i).holdsDirectory_iff.2 directory)]
          by_cases here : location ++ [piece] = place
          · rw [here]
            cases rest with
            | nil =>
                left
                intro i
                obtain ⟨content, modified, mode, held⟩ := (puts i).file
                dsimp only
                rw [held]
                rfl
            | cons next others =>
                right
                refine ⟨.notDirectory, ?_⟩
                intro i
                obtain ⟨content, modified, mode, held⟩ := (puts i).file
                dsimp only
                rw [held]
                exact (puts i).followPieces_cons _ next others
          · simp only [fun i => (puts i).elsewhere here]
            cases held : before.find? (location ++ [piece]) with
            | none =>
                rw [held] at names
                exact absurd (names_resolveMissing_iff.1 names).1 here
            | some entry =>
                rw [held] at names
                cases entry with
                | directory modified =>
                    exact inductionHypothesis names
                | file content modified mode =>
                    exact inductionHypothesis names
                | link target =>
                    by_cases last : rest = []
                    · simp [last, Resolution.Names, here] at names
                    · have goesOn (followLast : Bool) :
                          ¬ (rest.isEmpty && !followLast) = true := by
                        simp [last]
                      simp only [if_neg (goesOn _)] at names ⊢
                      exact onward location target rest names

theorem allFind_followLinks {links : Nat} (puts : ∀ i, PutsFile place before (afters i))
    (names : (before.followLinks false links location pieces).Names place) :
    Resolution.AllFind place fun i =>
      (afters i).followLinks (followLasts i) links location pieces := by
  induction links generalizing location pieces with
  | zero =>
      apply allFind_followPieces puts _ names
      intro location target rest failed
      simp [Resolution.Names] at failed
  | succ links inductionHypothesis =>
      apply allFind_followPieces puts _ names
      intro location target rest namesThere
      exact inductionHypothesis namesThere

/-- A path that named a location leads to any file that is put there, or to none, whether or not a
link at its end is followed. -/
theorem allFind_resolve {current : Location} {path : Path}
    (puts : ∀ i, PutsFile place before (afters i))
    (names : (before.resolve false current path).Names place) :
    Resolution.AllFind place fun i => (afters i).resolve (followLasts i) current path := by
  cases pathReading current path with
  | refused failure step =>
      simp [step, Resolution.Names] at names
  | followed written noZero step =>
      simp only [step] at names ⊢
      exact allFind_followLinks puts names

end Named

/-! ## Paths in general -/

theorem gains_followPieces {onLink onLinkLater : Location → Path → List String → Resolution}
    (puts : PutsFile place before after) (missing : before.find? place = none)
    (onward : ∀ location target rest,
      Resolution.Gains place (onLink location target rest) (onLinkLater location target rest)) :
    Resolution.Gains place (before.followPieces followLast onLink location pieces)
      (after.followPieces followLast onLinkLater location pieces) := by
  induction pieces generalizing location with
  | nil =>
      exact Or.inl rfl
  | cons piece rest inductionHypothesis =>
      cases after.pieceReading location piece with
      | failed failure step =>
          rw [step]
          exact Or.inr (Or.inr ⟨failure, rfl⟩)
      | onward next isNext directory step =>
          rw [step directory, step (puts.holdsDirectory_iff.1 directory)]
          exact inductionHypothesis
      | name solid short directory step =>
          rw [step directory, step (puts.holdsDirectory_iff.1 directory)]
          by_cases here : location ++ [piece] = place
          · obtain ⟨content, modified, mode, held⟩ := puts.file
            rw [here, missing, held]
            cases rest with
            | nil =>
                exact Or.inr (Or.inl ⟨rfl, rfl⟩)
            | cons next others =>
                exact Or.inr (Or.inr ⟨.notDirectory, puts.followPieces_cons _ next others⟩)
          · rw [puts.elsewhere here]
            cases before.find? (location ++ [piece]) with
            | none =>
                exact Or.inl rfl
            | some entry =>
                cases entry with
                | directory modified =>
                    exact inductionHypothesis
                | file content modified mode =>
                    exact inductionHypothesis
                | link target =>
                    dsimp only
                    split
                    · exact Or.inl rfl
                    · exact onward location target rest

theorem gains_followLinks {links : Nat} (puts : PutsFile place before after)
    (missing : before.find? place = none) :
    Resolution.Gains place (before.followLinks followLast links location pieces)
      (after.followLinks followLast links location pieces) := by
  induction links generalizing location pieces with
  | zero =>
      exact puts.gains_followPieces missing fun _ _ _ => Or.inl rfl
  | succ links inductionHypothesis =>
      exact puts.gains_followPieces missing fun _ _ _ => inductionHypothesis

/-- Where nothing stood, a new file keeps paths from leading anywhere else than before. -/
theorem gains_resolve {current : Location} {path : Path} (puts : PutsFile place before after)
    (missing : before.find? place = none) :
    Resolution.Gains place (before.resolve followLast current path)
      (after.resolve followLast current path) := by
  cases pathReading current path with
  | refused failure step =>
      rw [step, step]
      exact Or.inl rfl
  | followed written noZero step =>
      rw [step, step]
      exact puts.gains_followLinks missing

end PutsFile

end FileTree

end ClojureBuild
