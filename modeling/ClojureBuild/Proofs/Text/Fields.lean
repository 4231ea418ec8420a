import ClojureBuild.Text.Fields

/-!
# Cutting and joining

Cutting a text at a separator and joining the fields with it are inverse to each other: every text
is the join of its fields, and the fields of a join are the texts that were joined, provided that
none of them holds the separator.
-/

namespace ClojureBuild.Text

/-! ## Cutting -/

theorem cutAt_eq_of_notMem
    {separator : Char} {letters : List Char}
    (absent : separator ∉ letters) :
    cutAt separator letters = (letters, []) := by
  induction letters with
  | nil =>
      rfl
  | cons head tail inductionHypothesis =>
      have headDiffers : head ≠ separator := by
        rintro rfl
        exact absent (List.mem_cons_self)
      have tailFree : separator ∉ tail :=
        fun member => absent (List.mem_cons_of_mem head member)
      simp [cutAt, inductionHypothesis tailFree, headDiffers]

theorem cutAt_append_separator
    (separator : Char) (left right : List Char) :
    cutAt separator (left ++ separator :: right) =
      ((cutAt separator left).1,
        (cutAt separator left).2 ++
          (cutAt separator right).1 :: (cutAt separator right).2) := by
  induction left with
  | nil =>
      simp [cutAt]
  | cons head tail inductionHypothesis =>
      rw [List.cons_append, cutAt, inductionHypothesis, cutAt]
      by_cases atSeparator : head = separator
      · simp [atSeparator]
      · simp [atSeparator]

/-- A separator never occurs inside a field, and a field holds letters of the text only. -/
theorem mem_of_mem_cutAt
    {separator letter : Char} {letters field : List Char}
    (fieldMember :
      field ∈ (cutAt separator letters).1 :: (cutAt separator letters).2)
    (letterMember : letter ∈ field) :
    letter ∈ letters ∧ letter ≠ separator := by
  induction letters generalizing field with
  | nil =>
      simp only [cutAt, List.mem_singleton] at fieldMember
      simp [fieldMember] at letterMember
  | cons head tail inductionHypothesis =>
      simp only [cutAt] at fieldMember
      by_cases atSeparator : head = separator
      · simp only [atSeparator, if_true] at fieldMember
        rcases List.mem_cons.1 fieldMember with rfl | later
        · simp at letterMember
        · have held := inductionHypothesis later letterMember
          exact ⟨List.mem_cons_of_mem head held.1, held.2⟩
      · simp only [atSeparator, if_false] at fieldMember
        rcases List.mem_cons.1 fieldMember with rfl | later
        · rcases List.mem_cons.1 letterMember with rfl | inFirst
          · exact ⟨List.mem_cons_self, atSeparator⟩
          · have held := inductionHypothesis List.mem_cons_self inFirst
            exact ⟨List.mem_cons_of_mem head held.1, held.2⟩
        · have held :=
            inductionHypothesis (List.mem_cons_of_mem _ later) letterMember
          exact ⟨List.mem_cons_of_mem head held.1, held.2⟩

/-! ## Fields -/

theorem fields_ne_nil (separator : Char) (text : String) :
    fields separator text ≠ [] := by
  simp [fields]

theorem fields_of_notMem
    {separator : Char} {text : String}
    (absent : separator ∉ text.toList) :
    fields separator text = [text] := by
  simp [fields, cutAt_eq_of_notMem absent]

theorem fields_append
    (separator : Char) (left right : String) :
    fields separator (left ++ String.singleton separator ++ right) =
      fields separator left ++ fields separator right := by
  simp [fields, cutAt_append_separator]

theorem mem_of_mem_fields
    {separator letter : Char} {text field : String}
    (fieldMember : field ∈ fields separator text)
    (letterMember : letter ∈ field.toList) :
    letter ∈ text.toList ∧ letter ≠ separator := by
  have asLetters :
      field.toList ∈
        (cutAt separator text.toList).1 :: (cutAt separator text.toList).2 := by
    simp only [fields, List.mem_cons, List.mem_map] at fieldMember
    rcases fieldMember with rfl | ⟨letters, member, rfl⟩
    · simp
    · simp [member]
  exact mem_of_mem_cutAt asLetters letterMember

theorem separator_notMem_of_mem_fields
    {separator : Char} {text field : String}
    (fieldMember : field ∈ fields separator text) :
    separator ∉ field.toList := by
  intro member
  exact (mem_of_mem_fields fieldMember member).2 rfl

theorem lastField_eq_self_iff {separator : Char} {text : String} :
    lastField separator text = text ↔ separator ∉ text.toList := by
  constructor
  · intro isText
    have member := List.getLast_mem (fields_ne_nil separator text)
    rw [lastField, List.getLast?_eq_some_getLast (fields_ne_nil separator text),
      Option.getD_some] at isText
    rw [isText] at member
    exact separator_notMem_of_mem_fields member
  · intro absent
    rw [lastField, fields_of_notMem absent]
    rfl

/-! ## Joining -/

theorem joinWith_cons
    (separator text : String) {rest : List String}
    (nonempty : rest ≠ []) :
    joinWith separator (text :: rest) =
      text ++ separator ++ joinWith separator rest := by
  cases rest with
  | nil =>
      exact absurd rfl nonempty
  | cons next others =>
      rfl

theorem joinWith_append
    (separator : String) {left right : List String}
    (leftNonempty : left ≠ []) (rightNonempty : right ≠ []) :
    joinWith separator (left ++ right) =
      joinWith separator left ++ separator ++ joinWith separator right := by
  induction left with
  | nil =>
      exact absurd rfl leftNonempty
  | cons head tail inductionHypothesis =>
      by_cases tailEmpty : tail = []
      · subst tail
        exact joinWith_cons separator head rightNonempty
      · have appended : tail ++ right ≠ [] := by
          simp [tailEmpty]
        rw [List.cons_append, joinWith_cons separator head appended,
          inductionHypothesis tailEmpty, joinWith_cons separator head tailEmpty]
        simp only [String.append_assoc]

/-- A join is cut at the separators in its texts, too. -/
theorem fields_joinWith_eq_flatMap
    {separator : Char} {texts : List String} (nonempty : texts ≠ []) :
    fields separator (joinWith (String.singleton separator) texts) =
      texts.flatMap (fields separator) := by
  induction texts with
  | nil =>
      exact absurd rfl nonempty
  | cons head tail inductionHypothesis =>
      by_cases tailEmpty : tail = []
      · subst tail
        simp [joinWith]
      · rw [joinWith_cons _ head tailEmpty, fields_append, inductionHypothesis tailEmpty,
          List.flatMap_cons]

theorem fields_joinWith
    {separator : Char} {texts : List String}
    (nonempty : texts ≠ [])
    (free : ∀ text ∈ texts, separator ∉ text.toList) :
    fields separator (joinWith (String.singleton separator) texts) = texts := by
  have alone : ∀ text ∈ texts, fields separator text = [text] :=
    fun text member => fields_of_notMem (free text member)
  rw [fields_joinWith_eq_flatMap nonempty, List.flatMap_def, List.map_congr_left alone,
    ← List.flatMap_def, List.flatMap_singleton']

private theorem joinWith_cutAt (separator : Char) (letters : List Char) :
    joinWith (String.singleton separator)
        (((cutAt separator letters).1 :: (cutAt separator letters).2).map String.ofList) =
      String.ofList letters := by
  induction letters with
  | nil =>
      rfl
  | cons head tail inductionHypothesis =>
      by_cases atSeparator : head = separator
      · simp only [cutAt, atSeparator, if_true, List.map_cons] at inductionHypothesis ⊢
        rw [joinWith_cons _ _ (List.cons_ne_nil _ _), inductionHypothesis]
        apply String.toList_injective
        simp
      · simp only [cutAt, atSeparator, if_false, List.map_cons] at inductionHypothesis ⊢
        generalize (cutAt separator tail).2 = others at inductionHypothesis ⊢
        cases others with
        | nil =>
            simp only [List.map_nil, joinWith] at inductionHypothesis ⊢
            apply String.toList_injective
            simpa using congrArg String.toList inductionHypothesis
        | cons next rest =>
            simp only [List.map_cons, joinWith] at inductionHypothesis ⊢
            apply String.toList_injective
            simpa using congrArg String.toList inductionHypothesis

/-- Every text is the join of its fields. -/
theorem joinWith_fields (separator : Char) (text : String) :
    joinWith (String.singleton separator) (fields separator text) = text := by
  have joined := joinWith_cutAt separator text.toList
  simpa [fields] using joined

end ClojureBuild.Text
