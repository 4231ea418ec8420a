import ClojureBuild.Proofs.FileTree.Links

/-!
# Fillers between pieces

Empty pieces and dots in front of other pieces change nothing, whatever links are on the way.  At the
end they only ask for a directory.
-/

namespace ClojureBuild

/-- Fillers have been put in front of other pieces, and none at the end. -/
inductive Padded : List String → List String → Prop
  | nil : Padded [] []
  | cons {pieces padded : List String} (piece : String) (rest : Padded pieces padded) :
      Padded (piece :: pieces) (piece :: padded)
  | filler {pieces padded : List String} {piece : String} (isFiller : Path.isFiller piece = true)
      (nonempty : pieces ≠ []) (rest : Padded pieces padded) : Padded pieces (piece :: padded)

namespace Padded

variable {pieces padded more : List String}

theorem refl (pieces : List String) : Padded pieces pieces := by
  induction pieces with
  | nil =>
      exact Padded.nil
  | cons piece rest inductionHypothesis =>
      exact inductionHypothesis.cons piece

theorem append_left (front : List String) (isPadded : Padded pieces padded) :
    Padded (front ++ pieces) (front ++ padded) := by
  induction front with
  | nil =>
      exact isPadded
  | cons piece rest inductionHypothesis =>
      exact inductionHypothesis.cons piece

theorem isEmpty_eq (isPadded : Padded pieces padded) : pieces.isEmpty = padded.isEmpty := by
  cases isPadded with
  | nil =>
      rfl
  | cons piece rest =>
      rfl
  | filler isFiller nonempty rest =>
      simpa using nonempty

theorem filter_eq (isPadded : Padded pieces padded) :
    (padded.filter fun piece => !Path.isFiller piece) =
      pieces.filter fun piece => !Path.isFiller piece := by
  induction isPadded with
  | nil =>
      rfl
  | cons piece rest inductionHypothesis =>
      rw [List.filter_cons, List.filter_cons, inductionHypothesis]
  | filler isFiller nonempty rest inductionHypothesis =>
      rw [List.filter_cons_of_neg (by simp [isFiller]), inductionHypothesis]

/-- In front of other pieces all fillers can be left out. -/
theorem filter_append (front : List String) (nonempty : more ≠ []) :
    Padded ((front.filter fun piece => !Path.isFiller piece) ++ more) (front ++ more) := by
  induction front with
  | nil =>
      exact Padded.refl more
  | cons piece rest inductionHypothesis =>
      cases isFiller : Path.isFiller piece with
      | true =>
          rw [List.filter_cons_of_neg (by simp [isFiller])]
          exact inductionHypothesis.filler isFiller (by simp [nonempty])
      | false =>
          rw [List.filter_cons_of_pos (by simp [isFiller])]
          exact inductionHypothesis.cons piece

end Padded

namespace FileTree

variable {tree : FileTree} {pieces padded : List String} {location place : Location}
variable {followLast : Bool} {onLink : Location → Path → List String → Resolution}

theorem followPieces_padded_iff (isPadded : Padded pieces padded)
    (onward : ∀ location target {rest others}, Padded rest others →
      (onLink location target rest = .found place ↔ onLink location target others = .found place)) :
    tree.followPieces followLast onLink location pieces = .found place ↔
      tree.followPieces followLast onLink location padded = .found place := by
  induction isPadded generalizing location with
  | nil =>
      rfl
  | cons piece rest inductionHypothesis =>
      cases tree.pieceStep location piece with
      | onward next step =>
          rw [step, step]
          exact inductionHypothesis
      | link target step =>
          rw [step, step, rest.isEmpty_eq]
          split
          · rfl
          · exact onward location target rest
      | missing isAbsent step =>
          rw [step, step]
          exact iff_of_false (resolveMissing_ne_found _ _) (resolveMissing_ne_found _ _)
      | failed failure step =>
          rw [step, step]
  | @filler pieces padded piece isFiller nonempty rest inductionHypothesis =>
      by_cases directory : tree.HoldsDirectory location
      · rw [followPieces_cons_of_holdsDirectory directory,
          if_pos ((Path.isFiller_iff piece).1 isFiller)]
        exact inductionHypothesis
      · obtain ⟨first, others, split⟩ := List.exists_cons_of_ne_nil nonempty
        rw [split, followPieces_cons_of_not_holdsDirectory directory,
          followPieces_cons_of_not_holdsDirectory directory]

/-- Pieces lead to the same location with fillers between them. -/
theorem followLinks_padded_iff {links : Nat} (isPadded : Padded pieces padded) :
    tree.followLinks followLast links location pieces = .found place ↔
      tree.followLinks followLast links location padded = .found place := by
  induction links generalizing location pieces padded with
  | zero =>
      apply followPieces_padded_iff isPadded
      intro location target rest others _
      rfl
  | succ links inductionHypothesis =>
      apply followPieces_padded_iff isPadded
      intro location target rest others isPaddedRest
      exact inductionHypothesis (isPaddedRest.append_left target.body)

/-- Pieces that are the same but for fillers lead to the same directory. -/
theorem followLinks_directory_iff {links : Nat} {others : List String}
    (same : (pieces.filter fun piece => !Path.isFiller piece) =
      others.filter fun piece => !Path.isFiller piece) :
    (tree.followLinks true links location pieces = .found place ∧ tree.HoldsDirectory place) ↔
      (tree.followLinks true links location others = .found place ∧ tree.HoldsDirectory place) := by
  have pads := Padded.filter_append pieces (List.cons_ne_nil "" [])
  have otherPads := Padded.filter_append others (List.cons_ne_nil "" [])
  rw [← same] at otherPads
  have slash : Path.isFiller "" = true := rfl
  rw [← followLinks_append_filler_iff slash, ← followLinks_append_filler_iff slash,
    ← followLinks_padded_iff pads, ← followLinks_padded_iff otherPads]

end FileTree

end ClojureBuild
