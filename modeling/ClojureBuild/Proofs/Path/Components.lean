import ClojureBuild.Proofs.Path.Join

/-!
# Components of a path

Fillers contribute no components, two dots contribute a step back, and other pieces are names.  Only
the first piece of a path can contribute the top or a leading dot; apart from these the components of
a path are what the pieces of its body contribute.
-/

namespace ClojureBuild.Path

/-! ## What a piece contributes -/

theorem isFiller_of_plain
    {name : String} (plain : PlainName name) : isFiller name = false := by
  simp [isFiller, plain.nonempty, plain.notCurrent]

theorem laterComponent?_eq_none_iff (piece : String) :
    laterComponent? piece = none ↔ isFiller piece = true := by
  rw [isFiller_iff, laterComponent?]
  by_cases filler : piece = "" ∨ piece = "."
  · rw [if_pos filler]
    exact iff_of_true rfl filler
  · rw [if_neg filler]
    split
    · exact iff_of_false (Option.some_ne_none _) filler
    · exact iff_of_false (Option.some_ne_none _) filler

theorem laterComponent?_eq_some_iff (piece : String) (component : Component) :
    laterComponent? piece = some component ↔
      isFiller piece = false ∧ component = if piece = ".." then .parent else .name piece := by
  cases kind : isFiller piece with
  | true =>
      simp [(laterComponent?_eq_none_iff piece).2 kind]
  | false =>
      have contributed :
          laterComponent? piece = some (if piece = ".." then .parent else .name piece) := by
        rw [laterComponent?, if_neg ((isFiller_eq_false_iff piece).1 kind), apply_ite some]
      rw [contributed, Option.some_inj, eq_comm]
      exact (and_iff_right rfl).symm

theorem text_of_laterComponent? {piece : String} {component : Component}
    (found : laterComponent? piece = some component) : component.text = piece := by
  obtain ⟨-, rfl⟩ := (laterComponent?_eq_some_iff piece component).1 found
  split
  · next parent =>
      exact parent.symm
  · rfl

theorem ne_of_laterComponent? {piece : String} {component : Component}
    (found : laterComponent? piece = some component) :
    component ≠ .top ∧ component ≠ .current := by
  obtain ⟨-, rfl⟩ := (laterComponent?_eq_some_iff piece component).1 found
  split
  · decide
  · simp

/-- What pieces contribute behind the first one is neither the top nor a leading dot. -/
theorem ne_of_mem_later {pieces : List String} {component : Component}
    (member : component ∈ pieces.filterMap laterComponent?) :
    component ≠ .top ∧ component ≠ .current := by
  obtain ⟨piece, -, found⟩ := List.mem_filterMap.1 member
  exact ne_of_laterComponent? found

theorem filter_later (pieces : List String) :
    (pieces.filterMap laterComponent?).filter (fun component => component ≠ .current) =
      pieces.filterMap laterComponent? := by
  rw [List.filter_eq_self]
  intro component member
  simpa using (ne_of_mem_later member).2

/-- Pieces without fillers are the texts of the components that they contribute. -/
theorem filter_eq_map_text (pieces : List String) :
    (pieces.filter fun piece => !isFiller piece) =
      (pieces.filterMap laterComponent?).map Component.text := by
  induction pieces with
  | nil =>
      rfl
  | cons piece rest inductionHypothesis =>
      cases found : laterComponent? piece with
      | none =>
          have filler := (laterComponent?_eq_none_iff piece).1 found
          rw [List.filterMap_cons_none found, List.filter_cons_of_neg (by simp [filler])]
          exact inductionHypothesis
      | some component =>
          have solid := ((laterComponent?_eq_some_iff piece component).1 found).1
          rw [List.filterMap_cons_some found, List.filter_cons_of_pos (by simp [solid]),
            List.map_cons, text_of_laterComponent? found, inductionHypothesis]

theorem laterComponent?_of_plain
    {name : String} (plain : PlainName name) :
    laterComponent? name = some (.name name) := by
  simp [laterComponent?, plain.nonempty, plain.notCurrent, plain.notParent]

theorem filterMap_laterComponent?_of_plain
    {names : List String} (plain : ∀ name ∈ names, PlainName name) :
    names.filterMap laterComponent? = names.map .name := by
  induction names with
  | nil =>
      rfl
  | cons head tail inductionHypothesis =>
      rw [List.filterMap_cons_some (laterComponent?_of_plain (plain head List.mem_cons_self)),
        inductionHypothesis (fun name member => plain name (List.mem_cons_of_mem head member))]
      rfl

/-! ## The first piece -/

theorem firstComponent?_of_solid
    {piece : String} (absolute : Bool) (solid : isFiller piece = false) :
    firstComponent? absolute piece = laterComponent? piece := by
  have written := not_or.1 ((isFiller_eq_false_iff piece).1 solid)
  rw [firstComponent?, if_neg written.1, if_neg written.2]

theorem exists_firstComponent
    {piece : String} (written : piece ≠ "") :
    ∃ component, firstComponent? false piece = some component := by
  by_cases current : piece = "."
  · exact ⟨.current, by simp [firstComponent?, current]⟩
  · have solid := (isFiller_eq_false_iff piece).2 (not_or.2 ⟨written, current⟩)
    rw [firstComponent?_of_solid false solid]
    exact ⟨_, (laterComponent?_eq_some_iff piece _).2 ⟨solid, rfl⟩⟩

theorem firstComponent?_ne_top (piece : String) :
    firstComponent? false piece ≠ some .top := by
  intro top
  cases kind : isFiller piece with
  | true =>
      rcases (isFiller_iff piece).1 kind with rfl | rfl
      · cases top
      · cases top
  | false =>
      rw [firstComponent?_of_solid false kind] at top
      exact (ne_of_laterComponent? top).1 rfl

/-! ## Components of a path -/

/-- The components of an absolute path are the top and those of its body. -/
theorem components_of_isAbsolute
    {path : Path} (absolute : path.isAbsolute = true) :
    path.components = .top :: path.body.filterMap laterComponent? := by
  rw [components, pieces_of_isAbsolute absolute]
  simp [firstComponent?, absolute]

theorem pieces_eq_nil_cons_of_relative
    {path : Path} {later : List String}
    (relative : path.isAbsolute = false) (first : path.pieces = "" :: later) :
    path.text = "" := by
  have joined := Text.joinWith_fields '/' path.text
  rw [← pieces, first] at joined
  cases later with
  | nil =>
      simpa [Text.joinWith] using joined.symm
  | cons next rest =>
      have starts : path.isAbsolute = true := by
        rw [isAbsolute, ← joined, Text.joinWith_cons _ _ (List.cons_ne_nil next rest)]
        simp
      rw [relative] at starts
      exact absurd starts Bool.false_ne_true

/-- A relative path that is not empty has a first component, contributed by the first piece of its
core. -/
theorem components_of_relative
    {path : Path} (relative : path.isAbsolute = false) (written : path.text ≠ "") :
    ∃ first component later,
      path.core = first :: later ∧
        firstComponent? false first = some component ∧
          path.components = component :: later.filterMap laterComponent? := by
  obtain ⟨first, rest, split⟩ := List.exists_cons_of_ne_nil (pieces_ne_nil path)
  have firstWritten : first ≠ "" := by
    rintro rfl
    exact written (pieces_eq_nil_cons_of_relative relative split)
  obtain ⟨component, equality⟩ := exists_firstComponent firstWritten
  have whole : path.components = component :: rest.filterMap laterComponent? := by
    rw [components, split]
    simp [relative, equality]
  have body : path.body = first :: rest := by
    rw [body_of_relative relative, split]
  rcases body_eq_core path with same | slashed
  · exact ⟨first, component, rest, by rw [← same, body], equality, whole⟩
  · rw [body] at slashed
    cases coreCase : path.core with
    | nil =>
        rw [coreCase] at slashed
        exact absurd (List.cons.inj slashed).1 firstWritten
    | cons start later =>
        rw [coreCase, List.cons_append] at slashed
        obtain ⟨sameStart, sameRest⟩ := List.cons.inj slashed
        refine ⟨first, component, later, by rw [sameStart], equality, ?_⟩
        rw [whole, sameRest, List.filterMap_append]
        simp [laterComponent?]

/-- Apart from a leading dot the components of a relative path are what its pieces contribute. -/
theorem filter_components_of_relative {path : Path} (relative : path.isAbsolute = false) :
    path.components.filter (fun component => component ≠ .current) =
      path.pieces.filterMap laterComponent? := by
  obtain ⟨first, later, split⟩ := List.exists_cons_of_ne_nil path.pieces_ne_nil
  have firstKept :
      (firstComponent? false first).toList.filter (fun component => component ≠ .current) =
        (laterComponent? first).toList := by
    cases kind : isFiller first with
    | true =>
        rcases (isFiller_iff first).1 kind with rfl | rfl
        · rfl
        · rfl
    | false =>
        rw [firstComponent?_of_solid false kind, List.filter_eq_self]
        intro component member
        simpa using (ne_of_laterComponent? (Option.mem_toList.1 member)).2
  have whole :
      path.components =
        (firstComponent? false first).toList ++ later.filterMap laterComponent? := by
    rw [components, split, relative]
  rw [whole, split, List.filter_append, firstKept, filter_later, List.filterMap_cons]
  cases laterComponent? first with
  | none =>
      rfl
  | some component =>
      rfl

/-- The components of a path, apart from the top and a leading dot, are what its body contributes. -/
theorem filter_components (path : Path) :
    path.components.filter (fun component => component ≠ .top ∧ component ≠ .current) =
      path.body.filterMap laterComponent? := by
  have kept :
      (path.body.filterMap laterComponent?).filter
          (fun component => component ≠ .top ∧ component ≠ .current) =
        path.body.filterMap laterComponent? := by
    rw [List.filter_eq_self]
    intro component member
    simpa using ne_of_mem_later member
  cases absolute : path.isAbsolute with
  | true =>
      rw [components_of_isAbsolute absolute, List.filter_cons_of_neg (by simp), kept]
  | false =>
      rw [← kept, body_of_relative absolute, ← filter_components_of_relative absolute,
        List.filter_filter]
      apply List.filter_congr
      intro component _
      simp

/-! ## Components of a join -/

theorem filterMap_core (path : Path) :
    path.core.filterMap laterComponent? = path.body.filterMap laterComponent? := by
  rcases body_eq_core path with equality | equality
  · rw [equality]
  · rw [equality, List.filterMap_append]
    simp [laterComponent?]

theorem components_join
    {base inner : Path} (relative : inner.isAbsolute = false) (written : base.text ≠ "") :
    (base.join inner).components =
      base.components ++ inner.pieces.filterMap laterComponent? := by
  have kind := isAbsolute_join relative written
  have joined := body_join relative written
  cases absolute : base.isAbsolute with
  | true =>
      rw [absolute] at kind
      rw [components_of_isAbsolute kind, components_of_isAbsolute absolute, joined,
        List.filterMap_append, filterMap_core, List.cons_append]
  | false =>
      rw [absolute] at kind
      obtain ⟨first, component, later, core, equality, whole⟩ :=
        components_of_relative absolute written
      rw [body_of_relative kind] at joined
      rw [components, joined, core, whole, kind]
      simp [equality]

end ClojureBuild.Path
