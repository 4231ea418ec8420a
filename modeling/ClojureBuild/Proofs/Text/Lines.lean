import ClojureBuild.Proofs.Text.Fields

/-!
# Lines

A word without line breaks stands on one line of a text: the one whose number is the number of line
breaks before the word.
-/

namespace ClojureBuild.Text

/-! ## Occurrences -/

theorem occursIn_iff_isInfix {needle letters : List Char} :
    occursIn needle letters ↔ needle <:+: letters := by
  induction letters with
  | nil =>
      rw [occursIn, List.isEmpty_iff, List.infix_nil]
  | cons head tail inductionHypothesis =>
      rw [occursIn, Bool.or_eq_true, List.isPrefixOf_iff_prefix, inductionHypothesis,
        List.infix_cons_iff]

theorem contains_iff_isInfix {needle text : String} :
    contains needle text ↔ needle.toList <:+: text.toList :=
  occursIn_iff_isInfix

/-! ## The line of a word -/

variable {separator : Char} {word : List Char}

theorem cutAt_cons_self (letters : List Char) :
    cutAt separator (separator :: letters) =
      ([], (cutAt separator letters).1 :: (cutAt separator letters).2) :=
  if_pos rfl

theorem cutAt_cons_of_ne {head : Char} (differs : head ≠ separator) (letters : List Char) :
    cutAt separator (head :: letters) =
      (head :: (cutAt separator letters).1, (cutAt separator letters).2) :=
  if_neg differs

theorem cutAt_append_of_notMem (free : separator ∉ word) (after : List Char) :
    cutAt separator (word ++ after) =
      (word ++ (cutAt separator after).1, (cutAt separator after).2) := by
  induction word with
  | nil =>
      rfl
  | cons head tail inductionHypothesis =>
      rw [List.mem_cons, not_or] at free
      rw [List.cons_append, cutAt_cons_of_ne (Ne.symm free.1), inductionHypothesis free.2,
        List.cons_append]

/-- A word without separators stands in one field: the one whose number is the number of separators
before the word. -/
theorem exists_field_of_word (before after : List Char) (free : separator ∉ word) :
    ∃ field, ((cutAt separator (before ++ (word ++ after))).1 ::
        (cutAt separator (before ++ (word ++ after))).2)[before.count separator]? = some field ∧
      word <:+: field := by
  induction before with
  | nil =>
      rw [List.nil_append, cutAt_append_of_notMem free]
      exact ⟨_, rfl, List.infix_append_left⟩
  | cons head tail inductionHypothesis =>
      obtain ⟨field, found, inField⟩ := inductionHypothesis
      rw [List.cons_append]
      by_cases atSeparator : head = separator
      · rw [atSeparator, cutAt_cons_self, List.count_cons_self]
        exact ⟨field, found, inField⟩
      · rw [cutAt_cons_of_ne atSeparator, List.count_cons_of_ne atSeparator]
        -- The first field grows by a letter; the others stay what they are.
        cases number : tail.count separator with
        | zero =>
            rw [number] at found
            cases found
            exact ⟨_, rfl, inField.trans (List.suffix_cons head _).isInfix⟩
        | succ later =>
            rw [number] at found
            exact ⟨field, found, inField⟩

theorem isInfix_withoutReturn {line : List Char} (onLine : word <:+: line) (noReturn : '\r' ∉ word) :
    word <:+: withoutReturn line := by
  unfold withoutReturn
  split
  next rest ends =>
    have lineEnds : line = rest.reverse ++ ['\r'] := by
      rw [← List.reverse_reverse line, ends, List.reverse_cons]
    rw [lineEnds, List.infix_concat_iff] at onLine
    obtain atEnd | earlier := onLine
    · obtain rfl | ⟨shorter, rfl, _⟩ := List.suffix_concat_iff.mp atEnd
      · exact List.nil_infix
      · exact absurd (List.mem_append_right shorter (List.mem_singleton_self _)) noReturn
    · exact earlier
  next =>
    exact onLine

theorem exists_line_of_field {fields : List (List Char)} {number : Nat} {field : List Char}
    (found : fields[number]? = some field) (inField : word <:+: field) (nonempty : word ≠ [])
    (noReturn : '\r' ∉ word) :
    ∃ line, (linesOfFields fields)[number]? = some line ∧ word <:+: line := by
  fun_induction linesOfFields fields generalizing number with
  | case1 =>
      cases found
  | case2 final isEmpty =>
      obtain rfl := List.mem_singleton.mp (List.mem_of_getElem? found)
      rw [List.isEmpty_iff.mp isEmpty, List.infix_nil] at inField
      exact absurd inField nonempty
  | case3 final notEmpty =>
      exact ⟨field, found, inField⟩
  | case4 line next rest inductionHypothesis =>
      cases number with
      | zero =>
          cases found
          exact ⟨_, rfl, isInfix_withoutReturn inField noReturn⟩
      | succ number =>
          exact inductionHypothesis found

/-- A word without line breaks stands on the line whose number is the number of line breaks before the
word. -/
theorem exists_line_of_word {text : String} {before after : List Char}
    (spelled : text.toList = before ++ (word ++ after)) (nonempty : word ≠ [])
    (noBreak : '\n' ∉ word) (noReturn : '\r' ∉ word) :
    ∃ line, (lines text)[before.count '\n']? = some line ∧ word <:+: line.toList := by
  obtain ⟨field, found, inField⟩ := exists_field_of_word before after noBreak
  obtain ⟨line, lineFound, onLine⟩ := exists_line_of_field found inField nonempty noReturn
  refine ⟨String.ofList line, ?_, ?_⟩
  · rw [lines, spelled]
    simp only [List.getElem?_map, lineFound, Option.map_some]
  · rwa [String.toList_ofList]

end ClojureBuild.Text
