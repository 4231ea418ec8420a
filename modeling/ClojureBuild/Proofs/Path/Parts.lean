import ClojureBuild.Proofs.Path.Steps

/-!
# Paths put together from parts

Parts without slashes are joined one after the other.  Empty ones in front leave no trace, the first
other one begins the path, and each one after it contributes a component or is a filler.
-/

namespace ClojureBuild.Path

variable {base : Path} {part piece first : String} {parts rest : List String}

/-! ## Components of joined parts -/

theorem isAbsolute_of_slash_notMem (slashFree : '/' ∉ part.toList) :
    (Path.mk part).isAbsolute = false := by
  rw [← Bool.not_eq_true]
  intro absolute
  obtain ⟨rest, text⟩ := exists_of_isAbsolute absolute
  apply slashFree
  simp only at text
  simp [text]

theorem pieces_of_slash_notMem (slashFree : '/' ∉ part.toList) : (Path.mk part).pieces = [part] :=
  Text.fields_of_notMem slashFree

theorem isAbsolute_below_of_written (written : base.text ≠ "")
    (slashFree : ∀ part ∈ parts, '/' ∉ part.toList) :
    (base.below parts).isAbsolute = base.isAbsolute := by
  induction parts generalizing base with
  | nil =>
      rfl
  | cons part rest inductionHypothesis =>
      rw [List.forall_mem_cons] at slashFree
      have relative := isAbsolute_of_slash_notMem slashFree.1
      rw [below_cons, inductionHypothesis (text_join_ne_empty relative written) slashFree.2,
        isAbsolute_join relative written]

theorem components_below_of_written (written : base.text ≠ "")
    (slashFree : ∀ part ∈ parts, '/' ∉ part.toList) :
    (base.below parts).components = base.components ++ parts.filterMap laterComponent? := by
  induction parts generalizing base with
  | nil =>
      simp
  | cons part rest inductionHypothesis =>
      rw [List.forall_mem_cons] at slashFree
      have relative := isAbsolute_of_slash_notMem slashFree.1
      rw [below_cons, inductionHypothesis (text_join_ne_empty relative written) slashFree.2,
        components_join relative written, pieces_of_slash_notMem slashFree.1, List.append_assoc,
        ← List.filterMap_append]
      rfl

theorem ofParts_dropWhile_isEmpty (parts : List String) :
    ofParts (parts.dropWhile String.isEmpty) = ofParts parts := by
  induction parts with
  | nil =>
      rfl
  | cons part rest inductionHypothesis =>
      by_cases written : part = ""
      · rw [written, List.dropWhile_cons_of_pos rfl, inductionHypothesis]
        rfl
      · rw [List.dropWhile_cons_of_neg (by simpa [String.isEmpty_iff] using written)]

theorem ofParts_cons (first : String) (rest : List String) :
    ofParts (first :: rest) = (Path.mk first).below rest := by
  rw [ofParts, List.foldl_cons, join_empty]
  rfl

/-- What is left of the parts begins with one that is not empty. -/
theorem of_dropWhile_isEmpty_eq_cons (slashFree : ∀ part ∈ parts, '/' ∉ part.toList)
    (kept : parts.dropWhile String.isEmpty = first :: rest) :
    first ≠ "" ∧ '/' ∉ first.toList ∧ ∀ part ∈ rest, '/' ∉ part.toList := by
  have solid := List.head?_dropWhile_not String.isEmpty parts
  rw [kept, List.head?_cons] at solid
  have keptFree : ∀ part ∈ first :: rest, '/' ∉ part.toList := by
    intro part member
    rw [← kept] at member
    exact slashFree part ((List.dropWhile_suffix _).subset member)
  exact ⟨by simpa using solid, List.forall_mem_cons.1 keptFree⟩

theorem isAbsolute_ofParts (slashFree : ∀ part ∈ parts, '/' ∉ part.toList) :
    (ofParts parts).isAbsolute = false := by
  rw [← ofParts_dropWhile_isEmpty]
  cases kept : parts.dropWhile String.isEmpty with
  | nil =>
      rfl
  | cons first rest =>
      obtain ⟨written, firstFree, restFree⟩ := of_dropWhile_isEmpty_eq_cons slashFree kept
      rw [ofParts_cons, isAbsolute_below_of_written written restFree,
        isAbsolute_of_slash_notMem firstFree]

/-! ## Parts that lead down -/

theorem forall_laterComponent?_iff :
    (∀ component, laterComponent? piece = some component →
        ∃ name, component = Component.name name) ↔ piece ≠ ".." := by
  by_cases filler : piece = "" ∨ piece = "."
  · have notParent : piece ≠ ".." := by
      rcases filler with rfl | rfl
      · decide
      · decide
    simp [laterComponent?, filler, notParent]
  · by_cases parent : piece = ".."
    · simp [laterComponent?, parent]
    · simp [laterComponent?, filler, parent]

theorem forall_firstComponent?_iff (written : first ≠ "") :
    (∀ component, firstComponent? false first = some component →
        ∃ name, component = Component.name name) ↔ first ≠ "." ∧ first ≠ ".." := by
  by_cases current : first = "."
  · simp [firstComponent?, current]
  · simp [firstComponent?, written, current, forall_laterComponent?_iff]

theorem forall_filterMap_laterComponent?_iff :
    (∀ component ∈ parts.filterMap laterComponent?, ∃ name, component = Component.name name) ↔
      ".." ∉ parts := by
  simp only [List.mem_filterMap, forall_exists_index, and_imp]
  constructor
  · intro named member
    exact forall_laterComponent?_iff.1 (fun component => named component ".." member) rfl
  · intro noParent component piece member
    refine forall_laterComponent?_iff.2 ?_ component
    rintro rfl
    exact noParent member

/-- Parts put together are names only, unless a part leads back or a dot begins the path. -/
theorem forall_components_ofParts_iff (slashFree : ∀ part ∈ parts, '/' ∉ part.toList) :
    (∀ component ∈ (ofParts parts).components, ∃ name, component = Component.name name) ↔
      ".." ∉ parts ∧ (parts.dropWhile String.isEmpty).head? ≠ some "." := by
  have parents : ".." ∉ parts ↔ ".." ∉ parts.dropWhile String.isEmpty := by
    have inFront : ".." ∉ parts.takeWhile String.isEmpty := by
      intro member
      have isEmpty := List.all_eq_true.1 List.all_takeWhile ".." member
      cases isEmpty
    conv_lhs => rw [← List.takeWhile_append_dropWhile (p := String.isEmpty) (l := parts)]
    rw [List.mem_append, not_or, and_iff_right inFront]
  rw [← ofParts_dropWhile_isEmpty, parents]
  cases kept : parts.dropWhile String.isEmpty with
  | nil =>
      have none : (ofParts []).components = [] := rfl
      simp [none]
  | cons first rest =>
      obtain ⟨written, firstFree, restFree⟩ := of_dropWhile_isEmpty_eq_cons slashFree kept
      have whole : (ofParts (first :: rest)).components =
          (firstComponent? false first).toList ++ rest.filterMap laterComponent? := by
        rw [ofParts_cons, components_below_of_written written restFree, components,
          pieces_of_slash_notMem firstFree, isAbsolute_of_slash_notMem firstFree]
        simp
      rw [whole, List.forall_mem_append, forall_filterMap_laterComponent?_iff]
      simp only [Option.mem_toList, forall_firstComponent?_iff written,
        List.mem_cons, not_or, List.head?_cons, ne_eq, Option.some.injEq]
      grind

/-- After parts that are no dots a dot begins the path only when all of them are empty. -/
theorem head?_dropWhile_isEmpty_iff (noDot : "." ∉ parts) (written : first ≠ "")
    (rest : List String) :
    ((parts ++ first :: rest).dropWhile String.isEmpty).head? = some "." ↔
      first = "." ∧ ∀ part ∈ parts, part = "" := by
  induction parts with
  | nil =>
      simp [written]
  | cons part others inductionHypothesis =>
      rw [List.mem_cons, not_or] at noDot
      rw [List.cons_append, List.forall_mem_cons]
      by_cases empty : part = ""
      · rw [List.dropWhile_cons_of_pos (by simp [empty]), inductionHypothesis noDot.2]
        simp [empty]
      · simp [empty, Ne.symm noDot.1]

/-! ## Components that are names -/

theorem eq_of_laterComponent? {name : String}
    (found : laterComponent? piece = some (.name name)) :
    name = piece ∧ piece ≠ "" ∧ piece ≠ "." ∧ piece ≠ ".." := by
  obtain ⟨solid, isName⟩ := (laterComponent?_eq_some_iff piece _).1 found
  split at isName
  · cases isName
  · next notParent =>
      cases isName
      have written := not_or.1 ((isFiller_eq_false_iff piece).1 solid)
      exact ⟨rfl, written.1, written.2, notParent⟩

theorem laterComponent?_of_firstComponent? {absolute : Bool} {name : String}
    (found : firstComponent? absolute piece = some (.name name)) :
    laterComponent? piece = some (.name name) := by
  unfold firstComponent? at found
  split at found
  · split at found
    · cases found
    · cases found
  · split at found
    · cases found
    · exact found

theorem plainName_of_mem_components {path : Path} {name : String}
    (member : Component.name name ∈ path.components) : PlainName name := by
  obtain ⟨piece, inPieces, found⟩ :
      ∃ piece ∈ path.pieces, laterComponent? piece = some (.name name) := by
    unfold components at member
    split at member
    · cases member
    · next first later split =>
        rw [split]
        rcases List.mem_append.1 member with inFirst | inLater
        · exact ⟨first, List.mem_cons_self,
            laterComponent?_of_firstComponent? (Option.mem_toList.1 inFirst)⟩
        · obtain ⟨piece, inLater, found⟩ := List.mem_filterMap.1 inLater
          exact ⟨piece, List.mem_cons_of_mem first inLater, found⟩
  obtain ⟨rfl, written, notCurrent, notParent⟩ := eq_of_laterComponent? found
  exact ⟨written, notCurrent, notParent, Text.separator_notMem_of_mem_fields inPieces⟩

/-- Wherever a relative path of names is joined to, its components are added. -/
theorem components_join_of_names {path : Path} (relative : path.isAbsolute = false)
    (named : ∀ component ∈ path.components, ∃ name, component = Component.name name)
    (target : Path) : (target.join path).components = target.components ++ path.components := by
  by_cases written : target.text = ""
  · have empty : target = ⟨""⟩ := eq_empty written
    rw [empty, join_empty, components_empty, List.nil_append]
  · rw [components_join relative written]
    obtain ⟨first, later, split⟩ := List.exists_cons_of_ne_nil path.pieces_ne_nil
    have whole : path.components =
        (firstComponent? false first).toList ++ later.filterMap laterComponent? := by
      rw [components, split, relative]
    have begins : firstComponent? false first = laterComponent? first := by
      by_cases current : first = "."
      · rw [whole, current] at named
        obtain ⟨name, isName⟩ := named .current List.mem_cons_self
        cases isName
      · by_cases empty : first = ""
        · rw [empty]
          rfl
        · rw [firstComponent?, if_neg empty, if_neg current]
    rw [whole, split, begins, List.filterMap_cons]
    cases laterComponent? first with
    | none =>
        rfl
    | some component =>
        rfl

end ClojureBuild.Path
