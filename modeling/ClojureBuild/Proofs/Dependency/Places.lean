import ClojureBuild.Proofs.Dependency
import ClojureBuild.Proofs.Namespace.Places
import ClojureBuild.Proofs.Path.Parts

/-!
# Where artifacts lie

The place of an artifact in a repository is spelled by the segments of its group, by its name, its
version and the name of its file.  As long as each of them is the name of a directory, the coordinate
can be told from the place, and the place lies below the repository.
-/

namespace ClojureBuild

namespace Text

/-- What comes before and after the first separator is told by the whole. -/
theorem append_separator_inj
    {separator : Char} {left right leftRest rightRest : List Char}
    (leftFree : separator ∉ left) (rightFree : separator ∉ right) :
    left ++ separator :: leftRest = right ++ separator :: rightRest ↔
      left = right ∧ leftRest = rightRest := by
  constructor
  · intro same
    have sameField := congrArg (fun letters => (cutAt separator letters).1) same
    simp only [cutAt_append_separator, cutAt_eq_of_notMem leftFree, cutAt_eq_of_notMem rightFree]
      at sameField
    subst sameField
    exact ⟨rfl, (List.cons.inj (List.append_cancel_left same)).2⟩
  · rintro ⟨rfl, rfl⟩
    rfl

end Text

namespace Coordinate

variable {text leftText rightText : String} {named left right : Coordinate}

/-! ## Parts that come from a text -/

/-- No part of a coordinate has a slash in it. -/
def SlashFree (named : Coordinate) : Prop :=
  ∀ part ∈ named.parts, '/' ∉ part.toList

theorem slashFree_of_parse (read : Dependency.parse text = .artifact named) : named.SlashFree := by
  obtain ⟨plain, spells⟩ := Dependency.parse_eq_artifact_iff.1 read
  intro part member slash
  apply plain
  apply Dependency.looksLikePath_display_of_spells spells
  left
  exact (Path.mem_joinWith_iff (by decide)).2 ⟨part, member, slash⟩

theorem isPart_of_parse (read : Dependency.parse text = .artifact named) :
    ∀ part ∈ named.parts, IsPart part :=
  (spells_iff.1 (Dependency.parse_eq_artifact_iff.1 read).2).1

/-! ## The name of the file -/

/-- What follows artifact and version in the name of the file. -/
def ending (named : Coordinate) : List Char :=
  match named.classifier with
  | none => '.' :: named.kind.toList
  | some classifier => '-' :: (classifier.toList ++ '.' :: named.kind.toList)

theorem toList_fileName (named : Coordinate) :
    named.fileName.toList =
      named.artifact.toList ++ '-' :: (named.version.toList ++ named.ending) := by
  obtain ⟨group, artifact, kind, classifier, version⟩ := named
  cases classifier with
  | none =>
      simp [fileName, ending, Text.joinWith]
  | some classifier =>
      simp [fileName, ending, Text.joinWith]

theorem slash_notMem_fileName (slashFree : named.SlashFree) : '/' ∉ named.fileName.toList := by
  obtain ⟨-, artifact, kind, classifiers, version⟩ := forall_mem_parts.1 slashFree
  rw [toList_fileName, ending]
  cases given : named.classifier with
  | none =>
      simp [artifact, version, kind]
  | some classifier =>
      simp [artifact, version, kind, classifiers classifier given]

/-- The dash between artifact and version makes the name of the file a plain one. -/
theorem plainName_fileName (slashFree : named.SlashFree) : PlainName named.fileName := by
  have dash : '-' ∈ named.fileName.toList := by
    simp [toList_fileName]
  have differs {other : String} (noDash : '-' ∉ other.toList) : named.fileName ≠ other := by
    intro same
    rw [same] at dash
    exact noDash dash
  exact ⟨differs (by decide), differs (by decide), differs (by decide),
    slash_notMem_fileName slashFree⟩

/-- A classifier without dots and the type are told by what follows artifact and version. -/
theorem ending_inj (leftClear : ∀ classifier ∈ left.classifier, '.' ∉ classifier.toList)
    (rightClear : ∀ classifier ∈ right.classifier, '.' ∉ classifier.toList) :
    left.ending = right.ending ↔ left.classifier = right.classifier ∧ left.kind = right.kind := by
  rw [ending, ending]
  cases leftGiven : left.classifier with
  | none =>
      cases rightGiven : right.classifier with
      | none =>
          simp [String.toList_inj]
      | some classifier =>
          simp
  | some classifier =>
      cases rightGiven : right.classifier with
      | none =>
          simp
      | some other =>
          simp only [List.cons.injEq, true_and, Option.some.injEq,
            Text.append_separator_inj (leftClear classifier leftGiven)
              (rightClear other rightGiven), String.toList_inj]

/-! ## Coordinates told by their places -/

/-- The names that lead to an artifact from the top of a repository. -/
def placeNames (named : Coordinate) : List String :=
  Text.fields '.' named.group ++ [named.artifact, named.version, named.fileName]

/-- The names that lead to an artifact, in bytes. -/
def placeBytes (named : Coordinate) : List ByteText :=
  named.placeNames.map Text.encode

theorem repositoryPath_eq_below (named : Coordinate) :
    named.repositoryPath = (Path.mk "").below named.placeBytes :=
  rfl

/-- Every part of the place of an artifact is told by it: the segments of the group are not empty,
artifact and version are names of directories, and the classifier has no dot. -/
structure IsClear (named : Coordinate) : Prop where
  group : ∀ segment ∈ Text.fields '.' named.group, segment ≠ ""
  artifact : named.artifact ≠ "." ∧ named.artifact ≠ ".."
  version : named.version ≠ "." ∧ named.version ≠ ".."
  classifier : ∀ classifier ∈ named.classifier, '.' ∉ classifier.toList

theorem ne_of_mem_fields_group {segment : String} (member : segment ∈ Text.fields '.' named.group) :
    segment ≠ "." ∧ segment ≠ ".." := by
  have noDot := Text.separator_notMem_of_mem_fields member
  constructor
  · rintro rfl
    exact noDot (by decide)
  · rintro rfl
    exact noDot (by decide)

theorem slash_notMem_of_mem_fields_group (slashFree : named.SlashFree) {segment : String}
    (member : segment ∈ Text.fields '.' named.group) : '/' ∉ segment.toList := by
  intro slash
  exact (forall_mem_parts.1 slashFree).1 (Text.mem_of_mem_fields member slash).1

theorem IsClear.plainNames (clear : named.IsClear) (areParts : ∀ part ∈ named.parts, IsPart part)
    (slashFree : named.SlashFree) : ∀ name ∈ named.placeBytes, PlainName name := by
  suffices plain : ∀ name ∈ named.placeNames, PlainName name from
    List.forall_mem_map.2 fun name member => (plain name member).encode
  obtain ⟨-, isArtifact, -, -, isVersion⟩ := forall_mem_parts.1 areParts
  obtain ⟨-, artifact, -, -, version⟩ := forall_mem_parts.1 slashFree
  simp only [placeNames, List.forall_mem_append, List.forall_mem_cons]
  refine ⟨?_, ⟨isArtifact.written, clear.artifact.1, clear.artifact.2, artifact⟩,
    ⟨isVersion.written, clear.version.1, clear.version.2, version⟩,
    plainName_fileName slashFree, by simp⟩
  intro segment member
  obtain ⟨notCurrent, notParent⟩ := ne_of_mem_fields_group member
  exact ⟨clear.group segment member, notCurrent, notParent,
    slash_notMem_of_mem_fields_group slashFree member⟩

theorem eq_of_placeNames_eq (leftClear : left.IsClear) (rightClear : right.IsClear)
    (same : left.placeNames = right.placeNames) : left = right := by
  obtain ⟨sameGroup, sameRest⟩ := List.append_inj' same rfl
  simp only [List.cons.injEq, and_true] at sameRest
  obtain ⟨sameArtifact, sameVersion, sameFile⟩ := sameRest
  have group : left.group = right.group := by
    rw [← Text.joinWith_fields '.' left.group, sameGroup, Text.joinWith_fields]
  have sameEnding : left.ending = right.ending := by
    have letters := congrArg String.toList sameFile
    rw [toList_fileName, toList_fileName, sameArtifact, sameVersion] at letters
    exact List.append_cancel_left (List.cons.inj (List.append_cancel_left letters)).2
  obtain ⟨classifier, kind⟩ := (ending_inj leftClear.classifier rightClear.classifier).1 sameEnding
  cases left
  cases right
  simp_all

/-- No two coordinates share a place in a repository, provided that their parts are told by it: the
group is spelled by its directories, artifact and version by one directory each, and the name of the
file goes on with a dash before a classifier and with a dot before the type. -/
theorem coordinates_at_one_place_are_equal
    (leftRead : Dependency.parse leftText = .artifact left)
    (rightRead : Dependency.parse rightText = .artifact right)
    (leftClear : left.IsClear) (rightClear : right.IsClear) :
    left.repositoryPath.same right.repositoryPath = true ↔ left = right := by
  constructor
  · intro same
    rw [Path.same_iff, repositoryPath_eq_below, repositoryPath_eq_below,
      Path.components_below _
        (leftClear.plainNames (isPart_of_parse leftRead) (slashFree_of_parse leftRead)),
      Path.components_below _
        (rightClear.plainNames (isPart_of_parse rightRead) (slashFree_of_parse rightRead)),
      List.append_right_inj] at same
    have sameBytes := (List.map_inj_right fun _ _ => Path.Component.name.inj).1 same
    exact eq_of_placeNames_eq leftClear rightClear (Text.encode_injective.list_map sameBytes)
  · rintro rfl
    exact Path.same_self _

/-- A type with a dot is not taken for a classifier and a type. -/
theorem typed_and_classified_lie_apart :
    (Coordinate.mk "g" "a" "x.zip" none "1").repositoryPath = ⟨"g/a/1/a-1.x.zip"⟩ ∧
      (Coordinate.mk "g" "a" "zip" (some "x") "1").repositoryPath = ⟨"g/a/1/a-1-x.zip"⟩ ∧
        (Coordinate.mk "g" "a" "x.zip" none "1").repositoryPath.same
          (Coordinate.mk "g" "a" "zip" (some "x") "1").repositoryPath = false := by
  have typed : Dependency.parse "g:a:x.zip:1" = .artifact ⟨"g", "a", "x.zip", none, "1"⟩ := by
    decide +kernel
  have classified : Dependency.parse "g:a:zip:x:1" = .artifact ⟨"g", "a", "zip", some "x", "1"⟩ := by
    decide +kernel
  refine ⟨by decide +kernel, by decide +kernel, ?_⟩
  rw [Bool.eq_false_iff, ne_eq, coordinates_at_one_place_are_equal typed classified
    ⟨by decide, by decide, by decide, by decide⟩ ⟨by decide, by decide, by decide, by decide⟩]
  decide

example :
    (Coordinate.mk "g" "a" "zip" (some "x.y") "1").repositoryPath =
      (Coordinate.mk "g" "a" "y.zip" (some "x") "1").repositoryPath := by
  decide +kernel

/-! ## Places that lead down -/

/-- Neither the artifact nor its version leads back to the directory before, and the artifact is no
dot unless a directory for the group stands before it. -/
structure LeadsDown (named : Coordinate) : Prop where
  artifact : named.artifact ≠ ".."
  version : named.version ≠ ".."
  start : named.artifact = "." → ∃ letter ∈ named.group.toList, letter ≠ '.'

theorem slashFree_placeBytes (slashFree : named.SlashFree) :
    ∀ name ∈ named.placeBytes, '/' ∉ name.toList := by
  rw [placeBytes, List.forall_mem_map]
  simp only [Text.mem_encode_iff (show '/'.toNat < 0x80 by decide)]
  obtain ⟨-, artifact, -, -, version⟩ := forall_mem_parts.1 slashFree
  simp only [placeNames, List.forall_mem_append, List.forall_mem_cons]
  exact ⟨fun segment => slash_notMem_of_mem_fields_group slashFree, artifact, version,
    slash_notMem_fileName slashFree, by simp⟩

theorem parent_mem_placeBytes_iff (slashFree : named.SlashFree) :
    ".." ∈ named.placeBytes ↔ named.artifact = ".." ∨ named.version = ".." := by
  have ownBytes : Text.encode ".." = ".." := by
    decide +kernel
  have inNames : Text.encode ".." ∈ named.placeBytes ↔ ".." ∈ named.placeNames :=
    List.mem_map_of_injective Text.encode_injective
  rw [ownBytes] at inNames
  rw [inNames]
  have notSegment : ".." ∉ Text.fields '.' named.group :=
    fun member => (ne_of_mem_fields_group member).2 rfl
  have notFile : ".." ≠ named.fileName := (plainName_fileName slashFree).notParent.symm
  simp [placeNames, notSegment, notFile, eq_comm]

theorem exists_segment_iff (group : String) :
    (∃ segment ∈ Text.fields '.' group, segment ≠ "") ↔ ∃ letter ∈ group.toList, letter ≠ '.' := by
  constructor
  · rintro ⟨segment, member, written⟩
    obtain ⟨letter, rest, split⟩ := List.exists_cons_of_ne_nil (mt String.toList_eq_nil_iff.1 written)
    have inSegment : letter ∈ segment.toList := by
      rw [split]
      exact List.mem_cons_self
    exact ⟨letter, Text.mem_of_mem_fields member inSegment⟩
  · rintro ⟨letter, member, notDot⟩
    have notSeparator : letter ∉ (String.singleton '.').toList := by
      simpa using notDot
    rw [← Text.joinWith_fields '.' group, Path.mem_joinWith_iff notSeparator] at member
    obtain ⟨segment, inFields, inSegment⟩ := member
    refine ⟨segment, inFields, ?_⟩
    rintro rfl
    cases inSegment

theorem dropWhile_isEmpty_map_encode (texts : List String) :
    (texts.map Text.encode).dropWhile String.isEmpty =
      (texts.dropWhile String.isEmpty).map Text.encode := by
  have sameTest : String.isEmpty ∘ Text.encode = String.isEmpty := by
    funext text
    rw [Function.comp_apply, Bool.eq_iff_iff, String.isEmpty_iff, String.isEmpty_iff,
      Text.encode_eq_empty_iff]
  rw [List.dropWhile_map, sameTest]

/-- The place of an artifact begins with a dot only when the artifact is one and no directory stands
before it. -/
theorem head?_placeBytes_iff (areParts : ∀ part ∈ named.parts, IsPart part) :
    (named.placeBytes.dropWhile String.isEmpty).head? = some "." ↔
      named.artifact = "." ∧ ¬ ∃ letter ∈ named.group.toList, letter ≠ '.' := by
  have ownBytes : Text.encode "." = "." := by
    decide +kernel
  have sameHead : (named.placeBytes.dropWhile String.isEmpty).head? = some "." ↔
      (named.placeNames.dropWhile String.isEmpty).head? = some "." := by
    have ownHead : some "." = (some ".").map Text.encode := congrArg some ownBytes.symm
    rw [placeBytes, dropWhile_isEmpty_map_encode, List.head?_map, ownHead]
    exact (Option.map_injective Text.encode_injective).eq_iff
  rw [sameHead]
  have noDot : "." ∉ Text.fields '.' named.group :=
    fun member => (ne_of_mem_fields_group member).1 rfl
  rw [placeNames, Path.head?_dropWhile_isEmpty_iff noDot (forall_mem_parts.1 areParts).2.1.written,
    ← exists_segment_iff]
  simp

theorem components_are_names_iff (read : Dependency.parse text = .artifact named) :
    (∀ component ∈ named.repositoryPath.components, ∃ name, component = .name name) ↔
      named.LeadsDown := by
  have slashFree := slashFree_of_parse read
  rw [repositoryPath, ← placeNames, ← placeBytes,
    Path.forall_components_ofParts_iff (slashFree_placeBytes slashFree),
    parent_mem_placeBytes_iff slashFree, ne_eq, head?_placeBytes_iff (isPart_of_parse read),
    not_or, not_and_not_right]
  exact ⟨fun ⟨⟨artifact, version⟩, start⟩ => ⟨artifact, version, start⟩,
    fun down => ⟨⟨down.artifact, down.version⟩, down.start⟩⟩

/-- A place ends in the name of the file. -/
theorem components_repositoryPath_ne_nil (slashFree : named.SlashFree) :
    named.repositoryPath.components ≠ [] := by
  have split : named.repositoryPath =
      (Path.ofParts ((Text.fields '.' named.group ++ [named.artifact, named.version]).map
        Text.encode)).join ⟨Text.encode named.fileName⟩ := by
    simp [repositoryPath, Path.ofParts]
  rw [split, Path.components_join_plain _ (plainName_fileName slashFree).encode]
  simp

/-- The place of an artifact that leads down stays below whatever it is joined to. -/
theorem LeadsDown.staysBelow (read : Dependency.parse text = .artifact named)
    (down : named.LeadsDown) : Namespace.StaysBelow named.repositoryPath := by
  have slashFree := slashFree_of_parse read
  have relative : named.repositoryPath.isAbsolute = false :=
    Path.isAbsolute_ofParts (slashFree_placeBytes slashFree)
  have areNames := (components_are_names_iff read).2 down
  have joined := Path.components_join_of_names relative areNames
  refine ⟨relative, ?_, joined, ?_⟩
  · intro component member
    obtain ⟨name, rfl⟩ := areNames component member
    exact ⟨name, Path.plainName_of_mem_components member, rfl⟩
  · intro target
    rw [Path.ProperlyAbove, joined]
    refine ⟨List.prefix_append _ _, ?_⟩
    rw [ne_eq, List.self_eq_append_right]
    exact components_repositoryPath_ne_nil slashFree

end Coordinate

end ClojureBuild
