import ClojureBuild.Dependency
import ClojureBuild.Proofs.Path.Texts
import ClojureBuild.Proofs.Text.Fields

/-!
# How dependencies are written

A dependency is written as a coordinate in one of three ways, or else as a path.  The text that shows
a coordinate always names the type, also when the text that it was read from does not.  The added
type makes no path of the text, so the same dependency is read back.
-/

namespace ClojureBuild

namespace Coordinate

variable {text : String} {named : Coordinate}

/-! ## The grammar of coordinates -/

/-- A text may stand between the colons of a coordinate. -/
structure IsPart (text : String) : Prop where
  written : text ≠ ""
  free : ':' ∉ text.toList

/-- A text is a coordinate: without its type, with its type or with type and classifier. -/
inductive Spells : String → Coordinate → Prop where
  | short {group artifact version : String}
      (isGroup : IsPart group) (isArtifact : IsPart artifact) (isVersion : IsPart version) :
      Spells (group ++ ":" ++ artifact ++ ":" ++ version)
        ⟨group, artifact, "jar", none, version⟩
  | typed {group artifact kind version : String}
      (isGroup : IsPart group) (isArtifact : IsPart artifact) (isKind : IsPart kind)
      (isVersion : IsPart version) :
      Spells (group ++ ":" ++ artifact ++ ":" ++ kind ++ ":" ++ version)
        ⟨group, artifact, kind, none, version⟩
  | classified {group artifact kind classifier version : String}
      (isGroup : IsPart group) (isArtifact : IsPart artifact) (isKind : IsPart kind)
      (isClassifier : IsPart classifier) (isVersion : IsPart version) :
      Spells (group ++ ":" ++ artifact ++ ":" ++ kind ++ ":" ++ classifier ++ ":" ++ version)
        ⟨group, artifact, kind, some classifier, version⟩

theorem isPart_defaultKind : IsPart defaultKind :=
  ⟨by decide, by decide⟩

theorem forall_mem_parts {property : String → Prop} :
    (∀ part ∈ named.parts, property part) ↔
      property named.group ∧ property named.artifact ∧ property named.kind ∧
        (∀ classifier ∈ named.classifier, property classifier) ∧ property named.version := by
  simp [parts, or_imp, forall_and]

/-! ## The text of a coordinate -/

theorem display_eq (named : Coordinate) :
    named.display =
      named.group ++ ":" ++ named.artifact ++ ":" ++ named.kind ++
        ((named.classifier.map (":" ++ ·)).getD "") ++ ":" ++ named.version := by
  obtain ⟨group, artifact, kind, classifier, version⟩ := named
  cases classifier with
  | none =>
      simp [display, parts, Text.joinWith, String.append_assoc]
  | some classifier =>
      simp [display, parts, Text.joinWith, String.append_assoc]

/-- The text of a coordinate whose type goes without saying. -/
def shortText (named : Coordinate) : String :=
  named.group ++ ":" ++ named.artifact ++ ":" ++ named.version

theorem shortText_eq_joinWith (named : Coordinate) :
    named.shortText = Text.joinWith ":" [named.group, named.artifact, named.version] := by
  simp [shortText, Text.joinWith, String.append_assoc]

/-- A coordinate has the text that shows it, and a short one when its type goes without saying. -/
theorem spells_iff :
    Spells text named ↔
      (∀ part ∈ named.parts, IsPart part) ∧
        (text = named.display ∨
          text = named.shortText ∧ named.kind = defaultKind ∧ named.classifier = none) := by
  rw [forall_mem_parts]
  constructor
  · intro spells
    cases spells with
    | short isGroup isArtifact isVersion =>
        exact ⟨⟨isGroup, isArtifact, isPart_defaultKind, by simp, isVersion⟩,
          Or.inr ⟨rfl, rfl, rfl⟩⟩
    | typed isGroup isArtifact isKind isVersion =>
        exact ⟨⟨isGroup, isArtifact, isKind, by simp, isVersion⟩, Or.inl (by simp [display_eq])⟩
    | classified isGroup isArtifact isKind isClassifier isVersion =>
        exact ⟨⟨isGroup, isArtifact, isKind, by simpa using isClassifier, isVersion⟩,
          Or.inl (by simp [display_eq, String.append_assoc])⟩
  · obtain ⟨group, artifact, kind, classifier, version⟩ := named
    rintro ⟨⟨isGroup, isArtifact, isKind, areClassifiers, isVersion⟩,
      rfl | ⟨rfl, rfl, rfl⟩⟩
    · cases classifier with
      | none =>
          simpa [display_eq] using Spells.typed isGroup isArtifact isKind isVersion
      | some classifier =>
          simpa [display_eq, String.append_assoc] using
            Spells.classified isGroup isArtifact isKind (areClassifiers classifier rfl) isVersion
    · exact Spells.short isGroup isArtifact isVersion

/-! ## Reading a coordinate -/

theorem ofParts?_eq_some_iff {pieces : List String} :
    ofParts? pieces = some named ↔
      pieces = named.parts ∨
        pieces = [named.group, named.artifact, named.version] ∧
          named.kind = defaultKind ∧ named.classifier = none := by
  obtain ⟨group, artifact, kind, classifier, version⟩ := named
  constructor
  · intro taken
    unfold ofParts? at taken
    split at taken
    · cases taken
      exact Or.inr ⟨rfl, rfl, rfl⟩
    · cases taken
      exact Or.inl rfl
    · cases taken
      exact Or.inl rfl
    · cases taken
  · rintro (rfl | ⟨rfl, rfl, rfl⟩)
    · cases classifier with
      | none =>
          rfl
      | some classifier =>
          rfl
    · rfl

theorem parse?_joinWith {pieces : List String} (nonempty : pieces ≠ [])
    (areParts : ∀ piece ∈ pieces, IsPart piece) :
    parse? (Text.joinWith ":" pieces) = ofParts? pieces := by
  have cut : Text.fields ':' (Text.joinWith ":" pieces) = pieces :=
    Text.fields_joinWith nonempty fun piece member => (areParts piece member).free
  have written : pieces.any String.isEmpty = false := by
    rw [List.any_eq_false]
    intro piece member
    simpa using (areParts piece member).written
  simp [parse?, cut, written]

theorem exists_pieces_of_parse? (parsed : parse? text = some named) :
    ∃ pieces, (∀ piece ∈ pieces, IsPart piece) ∧ text = Text.joinWith ":" pieces ∧
      ofParts? pieces = some named := by
  refine ⟨Text.fields ':' text, ?_, (Text.joinWith_fields ':' text).symm, ?_⟩
  · intro piece member
    refine ⟨?_, Text.separator_notMem_of_mem_fields member⟩
    rintro rfl
    have empty : (Text.fields ':' text).any String.isEmpty = true :=
      List.any_eq_true.2 ⟨"", member, rfl⟩
    simp [parse?, empty] at parsed
  · simp only [parse?] at parsed
    split at parsed
    · cases parsed
    · exact parsed

/-- A coordinate is read from the texts that spell it, and from no others. -/
theorem parse?_eq_some_iff : parse? text = some named ↔ Spells text named := by
  rw [spells_iff]
  constructor
  · intro parsed
    obtain ⟨pieces, areParts, rfl, taken⟩ := exists_pieces_of_parse? parsed
    rcases ofParts?_eq_some_iff.1 taken with rfl | ⟨rfl, isDefault, unclassified⟩
    · exact ⟨areParts, Or.inl rfl⟩
    · refine ⟨?_, Or.inr ⟨named.shortText_eq_joinWith.symm, isDefault, unclassified⟩⟩
      simp only [List.forall_mem_cons] at areParts
      obtain ⟨isGroup, isArtifact, isVersion, -⟩ := areParts
      rw [forall_mem_parts, isDefault, unclassified]
      exact ⟨isGroup, isArtifact, isPart_defaultKind, by simp, isVersion⟩
  · rintro ⟨areParts, rfl | ⟨rfl, isDefault, unclassified⟩⟩
    · have read := parse?_joinWith (by simp [parts]) areParts
      exact read.trans (ofParts?_eq_some_iff.2 (Or.inl rfl))
    · have read : parse? named.shortText = ofParts? [named.group, named.artifact, named.version] := by
        obtain ⟨isGroup, isArtifact, -, -, isVersion⟩ := forall_mem_parts.1 areParts
        rw [shortText_eq_joinWith]
        exact parse?_joinWith (List.cons_ne_nil _ _) (by simp [isGroup, isArtifact, isVersion])
      exact read.trans (ofParts?_eq_some_iff.2 (Or.inr ⟨rfl, isDefault, unclassified⟩))

/-- A coordinate is among those that its own text may stand for. -/
theorem Spells.display (spells : Spells text named) : Spells named.display named :=
  spells_iff.2 ⟨(spells_iff.1 spells).1, Or.inl rfl⟩

end Coordinate

namespace Dependency

variable {text : String} {named : Coordinate}

/-! ## Texts that look like paths -/

/-- A text has a separator of paths in it or ends as the name of an archive does. -/
def LooksLikePath (text : String) : Prop :=
  '/' ∈ text.toList ∨ '\\' ∈ text.toList ∨ ".jar".toList <:+ text.toList

theorem isPathLike_iff : isPathLike text = true ↔ LooksLikePath text := by
  simp only [isPathLike, LooksLikePath, Bool.or_eq_true, List.any_eq_true, decide_eq_true_eq,
    List.isSuffixOf_iff_suffix, ← or_assoc]
  simp [and_or_left, exists_or]

/-- A suffix without the separator reaches no further back than the last field. -/
theorem suffix_append_separator_iff {separator : Char} {suffix left right : List Char}
    (absent : separator ∉ suffix) :
    suffix <:+ left ++ separator :: right ↔ suffix <:+ right := by
  constructor
  · intro ends
    rcases List.suffix_or_suffix_of_suffix ends (List.suffix_append left (separator :: right)) with
      inField | reachesBack
    · rcases List.suffix_cons_iff.1 inField with rfl | inField
      · exact absurd List.mem_cons_self absent
      · exact inField
    · -- A suffix that is longer than the last field has the separator in it.
      exact absurd (reachesBack.subset List.mem_cons_self) absent
  · intro ends
    exact ends.trans ((List.suffix_cons separator right).trans (List.suffix_append left _))

/-- To write the type out makes no path of a text: the type brings no separator of paths, and the end
of the text is still that of the version. -/
theorem looksLikePath_display_iff (isDefault : named.kind = Coordinate.defaultKind)
    (unclassified : named.classifier = none) :
    LooksLikePath named.display ↔ LooksLikePath named.shortText := by
  have ending (left : List Char) :
      ".jar".toList <:+ left ++ ':' :: named.version.toList ↔
        ".jar".toList <:+ named.version.toList :=
    suffix_append_separator_iff (by decide)
  have shown :
      named.display.toList =
        (named.group ++ ":" ++ named.artifact ++ ":jar").toList ++ ':' :: named.version.toList := by
    simp [Coordinate.display_eq, isDefault, unclassified, Coordinate.defaultKind]
  have short :
      named.shortText.toList =
        (named.group ++ ":" ++ named.artifact).toList ++ ':' :: named.version.toList := by
    simp [Coordinate.shortText]
  rw [LooksLikePath, LooksLikePath, shown, short, ending, ending]
  simp

theorem looksLikePath_display_of_spells (spells : Coordinate.Spells text named)
    (looksLikePath : LooksLikePath named.display) : LooksLikePath text := by
  obtain ⟨-, rfl | ⟨rfl, isDefault, unclassified⟩⟩ := Coordinate.spells_iff.1 spells
  · exact looksLikePath
  · exact (looksLikePath_display_iff isDefault unclassified).1 looksLikePath

/-! ## Reading a dependency -/

theorem parse_eq_artifact_iff :
    parse text = .artifact named ↔ ¬ LooksLikePath text ∧ Coordinate.Spells text named := by
  rw [← isPathLike_iff, ← Coordinate.parse?_eq_some_iff, parse]
  cases isPathLike text with
  | true =>
      simp
  | false =>
      cases Coordinate.parse? text with
      | none =>
          simp
      | some other =>
          simp

theorem parse_eq_path_iff {location : Path} :
    parse text = .path location ↔
      location = .ofText text ∧
        ¬ (¬ LooksLikePath text ∧ ∃ named, Coordinate.Spells text named) := by
  simp only [← isPathLike_iff, ← Coordinate.parse?_eq_some_iff, parse]
  cases isPathLike text with
  | true =>
      simp [eq_comm]
  | false =>
      cases Coordinate.parse? text with
      | none =>
          simp [eq_comm]
      | some other =>
          simp

/-- The text that shows a dependency stands for the same dependency. -/
theorem parse_display (text : String) : parse (parse text).display = parse text := by
  cases read : parse text with
  | path location =>
      obtain ⟨rfl, -⟩ := parse_eq_path_iff.1 read
      rw [display, Path.display_ofText, read]
  | artifact named =>
      obtain ⟨plain, spells⟩ := parse_eq_artifact_iff.1 read
      exact parse_eq_artifact_iff.2
        ⟨fun looksLikePath => plain (looksLikePath_display_of_spells spells looksLikePath),
          spells.display⟩

/-- A text is read as a coordinate when it spells one and does not look like a path, and else as the
path that is written with that text.  Either way the dependency is read back from the text that shows
it, in which the type of a coordinate is never left out, so two texts stand for one dependency when
the same text shows what they stand for. -/
theorem dependencies_are_read_by_their_grammar (text : String) :
    (∀ named,
        parse text = .artifact named ↔
          ¬ LooksLikePath text ∧ Coordinate.Spells text named) ∧
      (∀ location,
          parse text = .path location ↔
            location = .ofText text ∧
              ¬ (¬ LooksLikePath text ∧ ∃ named, Coordinate.Spells text named)) ∧
        parse (parse text).display = parse text ∧
          (∀ other, parse other = parse text ↔ (parse other).display = (parse text).display) ∧
            ∀ named : Coordinate,
              (artifact named).display =
                named.group ++ ":" ++ named.artifact ++ ":" ++ named.kind ++
                  ((named.classifier.map (":" ++ ·)).getD "") ++ ":" ++ named.version := by
  refine ⟨fun named => parse_eq_artifact_iff, fun location => parse_eq_path_iff,
    parse_display text, fun other => ⟨congrArg display, fun shown => ?_⟩, Coordinate.display_eq⟩
  calc
    parse other = parse (parse other).display := (parse_display other).symm
    _ = parse (parse text).display := by rw [shown]
    _ = parse text := parse_display text

example : (parse "org.clojure:clojure:1.2.0").display = "org.clojure:clojure:jar:1.2.0" := by
  decide +kernel

end Dependency

end ClojureBuild
