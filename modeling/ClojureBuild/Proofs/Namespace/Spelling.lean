import ClojureBuild.Proofs.Namespace
import ClojureBuild.Proofs.Path.Steps

/-!
# Spellings of a namespace

Names and namespaces stand for each other one to one.  So do namespaces and the paths of their
sources, when paths with the same components count as one and a leading dot is taken away.
-/

namespace ClojureBuild

namespace Path

variable {path : Path} {pieces : List String}

/-! ## Taking a leading dot away -/

/-- The path from the directory that a leading dot stands for, if there is a leading dot. -/
def withoutLeadingDot (path : Path) : Path :=
  (path.relativeTo? ⟨"."⟩).getD path

/-- The components of the relative path that is spelled by pieces, the first of them no filler. -/
theorem components_ofBody
    (solid : ∀ first ∈ pieces.head?, isFiller first = false)
    (free : ∀ piece ∈ pieces, '/' ∉ piece.toList) :
    (ofBody false pieces).components = pieces.filterMap laterComponent? := by
  cases pieces with
  | nil =>
      rfl
  | cons first later =>
      have spelled : (ofBody false (first :: later)).pieces = first :: later := by
        have text : (ofBody false (first :: later)).text =
            Text.joinWith (String.singleton '/') (first :: later) := by
          simp [ofBody, slash_eq]
        rw [Path.pieces, text, Text.fields_joinWith (List.cons_ne_nil first later) free]
      have firstSolid := solid first rfl
      rw [components, spelled]
      simp only [firstComponent?_of_solid _ firstSolid]
      rw [List.filterMap_cons]
      cases laterComponent? first with
      | none =>
          rfl
      | some component =>
          rfl

theorem filter_dropWhile_isFiller (pieces : List String) :
    (pieces.dropWhile isFiller).filter (fun piece => !isFiller piece) =
      pieces.filter fun piece => !isFiller piece := by
  induction pieces with
  | nil =>
      rfl
  | cons piece rest inductionHypothesis =>
      cases filler : isFiller piece with
      | true =>
          simp [filler, inductionHypothesis]
      | false =>
          simp [filler]

/-- Fillers contribute no components. -/
theorem filterMap_laterComponent?_of_filter
    {left right : List String}
    (same : left.filter (fun piece => !isFiller piece) =
      right.filter fun piece => !isFiller piece) :
    left.filterMap laterComponent? = right.filterMap laterComponent? := by
  have solidOnly (pieces : List String) :
      (pieces.filter fun piece => !isFiller piece).filterMap laterComponent? =
        pieces.filterMap laterComponent? := by
    induction pieces with
    | nil =>
        rfl
    | cons piece rest inductionHypothesis =>
        cases filler : isFiller piece with
        | true =>
            rw [List.filter_cons_of_neg (by simp [filler]), inductionHypothesis,
              List.filterMap_cons_none ((laterComponent?_eq_none_iff piece).2 filler)]
        | false =>
            rw [List.filter_cons_of_pos (by simp [filler]), List.filterMap_cons,
              List.filterMap_cons, inductionHypothesis]
  rw [← solidOnly left, same, solidOnly right]

/-- Fillers around pieces do not change the components that they spell. -/
theorem components_ofBody_trimmed (free : ∀ piece ∈ pieces, '/' ∉ piece.toList) :
    (ofBody false (((pieces.dropWhile isFiller).reverse.dropWhile isFiller).reverse)).components =
      pieces.filterMap laterComponent? := by
  have isPrefix : ((pieces.dropWhile isFiller).reverse.dropWhile isFiller).reverse <+:
      pieces.dropWhile isFiller := by
    rw [← List.reverse_suffix, List.reverse_reverse]
    exact List.dropWhile_suffix isFiller
  have solid : ∀ first ∈ (((pieces.dropWhile isFiller).reverse.dropWhile isFiller).reverse).head?,
      isFiller first = false := by
    intro first isFirst
    obtain ⟨others, whole⟩ := isPrefix
    have starts : (pieces.dropWhile isFiller).head? = some first := by
      rw [← whole, List.head?_append, Option.mem_def.1 isFirst]
      rfl
    have stopped := List.head?_dropWhile_not isFiller pieces
    rw [starts] at stopped
    exact stopped
  rw [components_ofBody solid fun piece member =>
    free piece ((List.dropWhile_sublist isFiller).subset (isPrefix.subset member))]
  apply filterMap_laterComponent?_of_filter
  rw [filter_trimmed (fun _ filler => filler), filter_dropWhile_isFiller]

/-- A path whose first component is a dot is relative, and its other components come from the pieces
after the first one. -/
theorem of_components_eq_current_cons
    {others : List Component} (leading : path.components = .current :: others) :
    path.isAbsolute = false ∧
      ∃ first later, path.pieces = first :: later ∧ others = later.filterMap laterComponent? := by
  have relative : path.isAbsolute = false := by
    cases absolute : path.isAbsolute with
    | false =>
        rfl
    | true =>
        rw [components_of_isAbsolute absolute] at leading
        cases leading
  have written : path.text ≠ "" := by
    intro empty
    have isEmpty : path = ⟨""⟩ := Path.eq_empty empty
    rw [isEmpty, Path.components_empty] at leading
    cases leading
  obtain ⟨first, later, split⟩ := List.exists_cons_of_ne_nil path.pieces_ne_nil
  have firstWritten : first ≠ "" := by
    rintro rfl
    exact written (pieces_eq_nil_cons_of_relative relative split)
  obtain ⟨component, contributed⟩ := exists_firstComponent firstWritten
  have whole : path.components = component :: later.filterMap laterComponent? := by
    rw [Path.components, split]
    simp [relative, contributed]
  exact ⟨relative, first, later, split, (List.cons.inj (leading.symm.trans whole)).2⟩

/-- Without a leading dot, a path has the same components but for that dot. -/
theorem components_withoutLeadingDot (path : Path) :
    path.withoutLeadingDot.components =
      path.components.filter fun component => component ≠ .current := by
  have tailFree := Namespace.current_notMem_tail path
  have dot : (Path.mk ".").components = [.current] := by
    decide
  cases components : path.components with
  | nil =>
      rw [withoutLeadingDot, relativeTo?, dot, components]
      exact components
  | cons start others =>
      rw [components, List.tail_cons] at tailFree
      have othersKept : others.filter (fun component => component ≠ .current) = others := by
        rw [List.filter_eq_self]
        intro component member
        apply decide_eq_true
        rintro rfl
        exact tailFree member
      by_cases leading : start = .current
      · subst leading
        obtain ⟨relative, first, later, split, othersAre⟩ :=
          of_components_eq_current_cons components
        have free : ∀ piece ∈ later, '/' ∉ piece.toList := by
          intro piece member
          have inBody : piece ∈ path.body := by
            rw [body_of_relative relative, split]
            exact List.mem_cons_of_mem first member
          exact slash_notMem_of_mem_body inBody
        have remaining :
            path.withoutLeadingDot =
              ofBody false (((later.dropWhile isFiller).reverse.dropWhile isFiller).reverse) := by
          rw [withoutLeadingDot, relativeTo?, dot, components, body_of_relative relative, split]
          rfl
        rw [remaining, components_ofBody_trimmed free, List.filter_cons_of_neg (by simp),
          othersKept, othersAre]
      · have kept : path.relativeTo? ⟨"."⟩ = none := by
          rw [relativeTo?, dot, components]
          exact if_neg fun same => leading same.symm
        rw [withoutLeadingDot, kept, Option.getD_none, components,
          List.filter_cons_of_pos (by simpa using leading), othersKept]

end Path

theorem canBeSegment_iff {text : String} :
    canBeSegment text = true ↔
      text ≠ "" ∧ '.' ∉ text.toList ∧ '/' ∉ text.toList ∧ '\\' ∉ text.toList := by
  simp only [canBeSegment, Bool.and_eq_true, Bool.not_eq_true', List.all_eq_true,
    decide_eq_true_eq]
  constructor
  · rintro ⟨nonempty, letters⟩
    refine ⟨?_, fun member => ?_, fun member => ?_, fun member => ?_⟩
    · rintro rfl
      simp at nonempty
    · simpa using letters _ member
    · simpa using letters _ member
    · simpa using letters _ member
  · rintro ⟨nonempty, noDot, noSlash, noBackslash⟩
    refine ⟨by simpa using nonempty, fun letter member => ⟨⟨?_, ?_⟩, ?_⟩⟩
    · rintro rfl
      exact noDot member
    · rintro rfl
      exact noSlash member
    · rintro rfl
      exact noBackslash member

namespace Namespace

variable {defined : Namespace} {path : Path} {text : String}

/-! ## Reading a name -/

theorem segmentFlaw?_of_all {segments : List String} (valid : segments.all canBeSegment = true) :
    segmentFlaw? segments = none := by
  induction segments with
  | nil =>
      rfl
  | cons segment rest inductionHypothesis =>
      rw [List.all_cons, Bool.and_eq_true] at valid
      obtain ⟨nonempty, -, noSlash, noBackslash⟩ := canBeSegment_iff.1 valid.1
      have noSeparator :
          (segment.toList.any fun letter => letter = '/' || letter = '\\') = false := by
        rw [List.any_eq_false]
        intro letter member
        have notSlash : letter ≠ '/' := by
          rintro rfl
          exact noSlash member
        have notBackslash : letter ≠ '\\' := by
          rintro rfl
          exact noBackslash member
        simp [notSlash, notBackslash]
      rw [segmentFlaw?, if_neg (by simpa using nonempty), noSeparator,
        if_neg Bool.false_ne_true]
      exact inductionHypothesis valid.2

theorem fields_name (defined : Namespace) : Text.fields '.' defined.name = defined.segments := by
  have dot : String.singleton '.' = "." := by
    decide
  rw [name, ← dot]
  apply Text.fields_joinWith defined.nonempty
  intro segment member
  exact (canBeSegment_iff.1 (canBeSegment_of_mem member)).2.1

/-- Reading a name gives the namespace that has this name. -/
theorem parse_eq_ok_iff : parse text = .ok defined ↔ defined.name = text := by
  constructor
  · intro read
    unfold parse at read
    split at read
    · cases read
    · dsimp only at read
      split at read
      · cases read
      · split at read
        · next found spelled =>
            cases read
            have dot : String.singleton '.' = "." := by
              decide
            rw [name, ofSegments?_eq_some_iff.1 spelled, ← dot, Text.joinWith_fields]
        · cases read
  · rintro rfl
    have written : defined.name.isEmpty = false := by
      cases empty : defined.name.isEmpty with
      | false =>
          rfl
      | true =>
          have noName : defined.name = "" := by
            simpa using empty
          have segments := fields_name defined
          rw [noName] at segments
          have member : "" ∈ defined.segments := by
            rw [← segments]
            decide
          exact absurd rfl (canBeSegment_iff.1 (canBeSegment_of_mem member)).1
    rw [parse, written, if_neg Bool.false_ne_true]
    simp only [fields_name, segmentFlaw?_of_all defined.valid,
      ofSegments?_eq_some_iff.2 (rfl : defined.segments = defined.segments)]

theorem name_injective : Function.Injective name := by
  intro left right same
  have read : parse right.name = .ok left := parse_eq_ok_iff.2 same
  have own : parse right.name = .ok right := parse_eq_ok_iff.2 rfl
  rw [own] at read
  exact (Except.ok.inj read).symm

/-! ## Reading a path -/

theorem of_ofSourcePath?_eq_some (read : ofSourcePath? path = some defined) :
    ∃ directories stem,
      directorySegments? path.components.dropLast = some directories ∧
        path.stem? = some (Text.encode stem) ∧ defined.segments = directories ++ [stem] := by
  unfold ofSourcePath? at read
  split at read
  · split at read
    · next stem directories stemRead directoriesRead =>
        exact ⟨directories, stem, directoriesRead, stemSegment?_eq_some_iff.1 stemRead,
          ofSegments?_eq_some_iff.1 read⟩
    · cases read
  · cases read

theorem sourcePath_same_of_ofSourcePath? (read : ofSourcePath? path = some defined) :
    defined.sourcePath.same path.withoutLeadingDot = true := by
  have spelled := ofSourcePath?_eq_some_iff.1 read
  have own := ofSourcePath?_eq_some_iff.1 (ofSourcePath?_sourcePath defined)
  -- the path of a source starts with no dot, so nothing is taken away from it
  have whole : defined.sourcePath.components.filter (fun component => component ≠ .current) =
      defined.sourcePath.components := by
    have components := Path.components_below ⟨""⟩ defined.plainName_of_mem_sourceNames
    rw [← join_sourcePath, Path.join_empty] at components
    rw [components, List.filter_eq_self]
    intro component member
    obtain ⟨name, -, rfl⟩ := List.mem_map.1 member
    rfl
  rw [Path.same, beq_iff_eq, Path.components_withoutLeadingDot, spelled, ← own, whole]

/-- A path that starts at the top, goes up or has a dot in the name of a directory or in the stem
spells no namespace. -/
theorem ofSourcePath?_eq_none
    (unspellable : path.isAbsolute = true ∨ .parent ∈ path.components ∨
      (∃ directory, .name directory ∈ path.components.dropLast ∧ '.' ∈ directory.toList) ∨
        ∃ stem, path.stem? = some stem ∧ '.' ∈ stem.toList) :
    ofSourcePath? path = none := by
  rw [Option.eq_none_iff_forall_ne_some]
  intro defined read
  obtain ⟨directories, stem, directoriesRead, stemRead, segments⟩ := of_ofSourcePath?_eq_some read
  have undotted : ∀ segment ∈ directories ++ [stem], '.' ∉ (Text.encode segment).toList := by
    intro segment member
    rw [Text.mem_encode_iff (by decide)]
    exact (canBeSegment_iff.1 (canBeSegment_of_mem (by rw [segments]; exact member))).2.1
  obtain absolute | goesUp | ⟨directory, listed, dotted⟩ | ⟨other, isStem, dotted⟩ := unspellable
  · rw [(pieces_of_ofSourcePath? read).1] at absolute
    cases absolute
  · have kept : Path.Component.parent ∈ defined.sourceNames.map Path.Component.name := by
      rw [← ofSourcePath?_eq_some_iff.1 read]
      exact List.mem_filter.2 ⟨goesUp, by decide⟩
    obtain ⟨name, -, contradiction⟩ := List.mem_map.1 kept
    cases contradiction
  · have kept : Path.Component.name directory ∈
        (directories.map Text.encode).map Path.Component.name := by
      rw [← directorySegments?_eq_some_iff.1 directoriesRead]
      exact List.mem_filter.2 ⟨listed, by simp⟩
    simp only [List.mem_map, Path.Component.name.injEq, exists_eq_right] at kept
    obtain ⟨segment, member, rfl⟩ := kept
    exact undotted segment (List.mem_append_left _ member) dotted
  · rw [stemRead] at isStem
    cases isStem
    exact undotted stem (by simp) dotted

/-- A text is the name of a namespace exactly when it joins segments with dots.  Reading a name and
writing it, and reading the path of a source and writing it, undo each other, up to a leading dot in
the path. -/
theorem names_and_source_paths_correspond :
    (∀ text, (∃ defined, parse text = .ok defined) ↔
        ∃ segments, segments ≠ [] ∧
          (∀ segment ∈ segments, segment ≠ "" ∧ '.' ∉ segment.toList ∧ '/' ∉ segment.toList ∧
            '\\' ∉ segment.toList) ∧
            text = Text.joinWith "." segments) ∧
      (∀ text defined, parse text = .ok defined →
        defined.name = text ∧ ofSourcePath? defined.sourcePath = some defined) ∧
      (∀ path defined, ofSourcePath? path = some defined →
        parse defined.name = .ok defined ∧
          defined.sourcePath.same path.withoutLeadingDot = true) ∧
      (∀ left right defined, ofSourcePath? left = some defined →
        ofSourcePath? right = some defined →
          left.withoutLeadingDot.same right.withoutLeadingDot = true) ∧
      ∀ path : Path, path.isAbsolute = true ∨ .parent ∈ path.components ∨
          (∃ directory, .name directory ∈ path.components.dropLast ∧ '.' ∈ directory.toList) ∨
            (∃ stem, path.stem? = some stem ∧ '.' ∈ stem.toList) →
        ofSourcePath? path = none := by
  refine ⟨?_, ?_, ?_, ?_, fun path => ofSourcePath?_eq_none⟩
  · intro text
    constructor
    · rintro ⟨defined, read⟩
      refine ⟨defined.segments, defined.nonempty, ?_, (parse_eq_ok_iff.1 read).symm⟩
      intro segment member
      exact canBeSegment_iff.1 (canBeSegment_of_mem member)
    · rintro ⟨segments, nonempty, valid, rfl⟩
      have allValid : segments.all canBeSegment = true :=
        List.all_eq_true.2 fun segment member => canBeSegment_iff.2 (valid segment member)
      exact ⟨⟨segments, nonempty, allValid⟩, parse_eq_ok_iff.2 rfl⟩
  · intro text defined read
    exact ⟨parse_eq_ok_iff.1 read, ofSourcePath?_sourcePath defined⟩
  · intro path defined read
    exact ⟨parse_eq_ok_iff.2 rfl, sourcePath_same_of_ofSourcePath? read⟩
  · intro left right defined leftRead rightRead
    have leftSame := sourcePath_same_of_ofSourcePath? leftRead
    have rightSame := sourcePath_same_of_ofSourcePath? rightRead
    rw [Path.same, beq_iff_eq] at leftSame rightSame ⊢
    rw [← leftSame, rightSame]

end Namespace

end ClojureBuild
