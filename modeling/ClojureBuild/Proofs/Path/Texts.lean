import ClojureBuild.Path
import ClojureBuild.Proofs.Text.Encoding

/-!
# Paths that are texts

A path that is written with the letters of a text is shown as that text and read back from it.  So
among the paths that are texts, those that are shown alike are written alike.
-/

namespace ClojureBuild.Path

variable {path left right : Path} {text : String}

@[simp]
theorem toText?_ofText (text : String) : (ofText text).toText? = some text :=
  Text.decode?_encode text

@[simp]
theorem display_ofText (text : String) : (ofText text).display = text :=
  Text.decodeLossy_encode text

theorem isText_iff : path.isText = true ↔ path = ofText path.display := by
  rw [isText, Option.isSome_iff_exists]
  constructor
  · rintro ⟨text, read⟩
    have spelled : path = ofText text := congrArg Path.mk (Text.decode?_eq_some_iff.1 read)
    rw [spelled, display_ofText]
  · intro spelled
    rw [spelled]
    exact ⟨_, toText?_ofText _⟩

@[simp]
theorem isText_ofText (text : String) : (ofText text).isText = true := by
  rw [isText_iff, display_ofText]

theorem eq_of_display_eq (leftIsText : left.isText = true) (rightIsText : right.isText = true)
    (same : left.display = right.display) : left = right := by
  rw [isText_iff.1 leftIsText, same, ← isText_iff.1 rightIsText]

/-- Lists of paths that are texts differ where they are shown differently. -/
theorem map_display_eq_iff {lefts rights : List Path}
    (leftAreTexts : ∀ path ∈ lefts, path.isText = true)
    (rightAreTexts : ∀ path ∈ rights, path.isText = true) :
    lefts.map display = rights.map display ↔ lefts = rights := by
  refine ⟨fun same => ?_, congrArg _⟩
  induction lefts generalizing rights with
  | nil =>
      exact (List.map_eq_nil_iff.1 same.symm).symm
  | cons left lefts inductionHypothesis =>
      cases rights with
      | nil =>
          cases same
      | cons right rights =>
          rw [List.forall_mem_cons] at leftAreTexts rightAreTexts
          obtain ⟨sameFirst, sameRest⟩ := List.cons.inj same
          rw [eq_of_display_eq leftAreTexts.1 rightAreTexts.1 sameFirst,
            inductionHypothesis leftAreTexts.2 rightAreTexts.2 sameRest]

end ClojureBuild.Path
