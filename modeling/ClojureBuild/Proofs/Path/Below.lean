import ClojureBuild.Proofs.Path.Components

/-!
# Plain names below a path

Following plain names from a path is joining them one after the other.  The result is spelled by one
join as well, its components are those of the path and then the names, and taking the path away
leaves the names.
-/

namespace ClojureBuild.Path

/-! ## Following names -/

/-- The path that plain names lead to from a path. -/
def below (base : Path) (names : List String) : Path :=
  names.foldl (fun path name => path.join ⟨name⟩) base

@[simp]
theorem below_nil (base : Path) : base.below [] = base :=
  rfl

@[simp]
theorem below_cons (base : Path) (name : String) (names : List String) :
    base.below (name :: names) = (base.join ⟨name⟩).below names :=
  rfl

theorem below_append (base : Path) (front rest : List String) :
    base.below (front ++ rest) = (base.below front).below rest :=
  List.foldl_append

theorem below_concat (base : Path) (names : List String) (name : String) :
    base.below (names ++ [name]) = (base.below names).join ⟨name⟩ :=
  base.below_append names [name]

end ClojureBuild.Path

namespace ClojureBuild.PlainName

variable {name : String}

theorem isAbsolute (plain : PlainName name) : (Path.mk name).isAbsolute = false := by
  cases absolute : (Path.mk name).isAbsolute with
  | false =>
      rfl
  | true =>
      obtain ⟨rest, text⟩ := Path.exists_of_isAbsolute absolute
      have member : '/' ∈ name.toList := by
        simp only at text
        simp [text]
      exact absurd member plain.noSlash

theorem pieces (plain : PlainName name) : (Path.mk name).pieces = [name] :=
  Text.fields_of_notMem plain.noSlash

end ClojureBuild.PlainName

namespace ClojureBuild.Path

theorem eq_empty {path : Path} (unwritten : path.text = "") : path = ⟨""⟩ :=
  congrArg Path.mk unwritten

theorem components_empty : (Path.mk "").components = [] :=
  rfl

theorem join_empty (inner : Path) : (Path.mk "").join inner = inner := by
  simp [join]

theorem components_plain
    {name : String} (plain : PlainName name) :
    (Path.mk name).components = [.name name] := by
  rw [components, plain.pieces]
  simp [firstComponent?, laterComponent?, plain.nonempty, plain.notCurrent, plain.notParent]

theorem components_join_plain
    (base : Path) {name : String} (plain : PlainName name) :
    (base.join ⟨name⟩).components = base.components ++ [.name name] := by
  by_cases written : base.text = ""
  · have empty : base = ⟨""⟩ := eq_empty written
    rw [empty, join_empty, components_plain plain, components_empty]
    rfl
  · rw [components_join plain.isAbsolute written, plain.pieces]
    simp [laterComponent?_of_plain plain]

theorem components_below
    (base : Path) {names : List String} (plain : ∀ name ∈ names, PlainName name) :
    (base.below names).components = base.components ++ names.map .name := by
  induction names generalizing base with
  | nil =>
      simp
  | cons head tail inductionHypothesis =>
      rw [below_cons,
        inductionHypothesis (base.join ⟨head⟩)
          (fun name member => plain name (List.mem_cons_of_mem head member)),
        components_join_plain base (plain head List.mem_cons_self)]
      simp

theorem text_join_plain_ne_empty
    (base : Path) {name : String} (plain : PlainName name) :
    (base.join ⟨name⟩).text ≠ "" := by
  by_cases written : base.text = ""
  · have empty : base = ⟨""⟩ := eq_empty written
    rw [empty, join_empty]
    exact plain.nonempty
  · cases slash : base.endsInSlash with
    | false =>
        rw [join_of_not_endsInSlash plain.isAbsolute written slash]
        simp
    | true =>
        rw [join_of_endsInSlash plain.isAbsolute written slash]
        simp [written]

theorem endsInSlash_join_plain
    (base : Path) {name : String} (plain : PlainName name) :
    (base.join ⟨name⟩).endsInSlash = false := by
  have lastLetter : name.toList.getLast? ≠ some '/' := by
    intro last
    exact plain.noSlash (List.mem_of_getLast? last)
  have whole : ∃ front, (base.join ⟨name⟩).text = front ++ name := by
    by_cases written : base.text = ""
    · have empty : base = ⟨""⟩ := eq_empty written
      exact ⟨"", by rw [empty, join_empty]; simp⟩
    · cases slash : base.endsInSlash with
      | false =>
          exact ⟨base.text ++ "/", by
            rw [join_of_not_endsInSlash plain.isAbsolute written slash]⟩
      | true =>
          exact ⟨base.text, by rw [join_of_endsInSlash plain.isAbsolute written slash]⟩
  obtain ⟨front, text⟩ := whole
  simp [endsInSlash, text, List.getLast?_append, lastLetter, plain.nonempty]

theorem isAbsolute_joinWith
    {first : String} (rest : List String) (plain : PlainName first) :
    (Path.mk (Text.joinWith "/" (first :: rest))).isAbsolute = false := by
  have letters : first.toList ≠ [] := by
    simpa using plain.nonempty
  obtain ⟨letter, others, split⟩ := List.exists_cons_of_ne_nil letters
  have differs : letter ≠ '/' := by
    rintro rfl
    exact plain.noSlash (by simp [split])
  cases rest with
  | nil =>
      simp [isAbsolute, Text.joinWith, split, differs]
  | cons next more =>
      simp [isAbsolute, Text.joinWith, split, differs]

/-- Following names one after the other is one join with all of them. -/
theorem below_eq_join
    (base : Path) {names : List String}
    (nonempty : names ≠ []) (plain : ∀ name ∈ names, PlainName name) :
    base.below names = base.join ⟨Text.joinWith "/" names⟩ := by
  induction names generalizing base with
  | nil =>
      exact absurd rfl nonempty
  | cons head tail inductionHypothesis =>
      have headPlain := plain head List.mem_cons_self
      by_cases tailEmpty : tail = []
      · subst tail
        rfl
      · have step := base.text_join_plain_ne_empty headPlain
        have noSlash := base.endsInSlash_join_plain headPlain
        have tailPlain : ∀ name ∈ tail, PlainName name :=
          fun name member => plain name (List.mem_cons_of_mem head member)
        obtain ⟨next, more, tailSplit⟩ := List.exists_cons_of_ne_nil tailEmpty
        have tailRelative :
            (Path.mk (Text.joinWith "/" tail)).isAbsolute = false := by
          rw [tailSplit]
          exact isAbsolute_joinWith more (tailPlain next (by simp [tailSplit]))
        rw [below_cons, inductionHypothesis (base.join ⟨head⟩) tailEmpty tailPlain,
          join_of_not_endsInSlash tailRelative step noSlash,
          Text.joinWith_cons "/" head tailEmpty]
        by_cases written : base.text = ""
        · have empty : base = ⟨""⟩ := eq_empty written
          rw [empty, join_empty, join_empty]
        · have wholeRelative :
              (Path.mk (head ++ "/" ++ Text.joinWith "/" tail)).isAbsolute = false := by
            rw [← Text.joinWith_cons "/" head tailEmpty]
            exact isAbsolute_joinWith tail headPlain
          cases slash : base.endsInSlash with
          | false =>
              rw [join_of_not_endsInSlash headPlain.isAbsolute written slash,
                join_of_not_endsInSlash wholeRelative written slash]
              simp [String.append_assoc]
          | true =>
              rw [join_of_endsInSlash headPlain.isAbsolute written slash,
                join_of_endsInSlash wholeRelative written slash]
              simp [String.append_assoc]

theorem pieces_joinWith
    {names : List String} (nonempty : names ≠ []) (plain : ∀ name ∈ names, PlainName name) :
    (Path.mk (Text.joinWith "/" names)).pieces = names := by
  rw [pieces, slash_eq]
  exact Text.fields_joinWith nonempty fun name member => (plain name member).noSlash

theorem components_joinWith
    {names : List String} (nonempty : names ≠ []) (plain : ∀ name ∈ names, PlainName name) :
    (Path.mk (Text.joinWith "/" names)).components = names.map .name := by
  have below := components_below ⟨""⟩ plain
  rw [below_eq_join _ nonempty plain, join_empty] at below
  exact below

/-- The body of a path below a path that is not empty. -/
theorem body_below
    {base : Path} {names : List String} (written : base.text ≠ "")
    (nonempty : names ≠ []) (plain : ∀ name ∈ names, PlainName name) :
    (base.below names).body = base.core ++ names := by
  obtain ⟨first, rest, split⟩ := List.exists_cons_of_ne_nil nonempty
  have relative : (Path.mk (Text.joinWith "/" names)).isAbsolute = false := by
    rw [split]
    exact isAbsolute_joinWith rest (plain first (by simp [split]))
  rw [below_eq_join base nonempty plain, body_join relative written,
    pieces_joinWith nonempty plain]

theorem isAbsolute_below
    {base : Path} {names : List String} (written : base.text ≠ "")
    (plain : ∀ name ∈ names, PlainName name) :
    (base.below names).isAbsolute = base.isAbsolute := by
  induction names generalizing base with
  | nil =>
      rfl
  | cons head tail inductionHypothesis =>
      have headPlain := plain head List.mem_cons_self
      rw [below_cons,
        inductionHypothesis (base.text_join_plain_ne_empty headPlain)
          (fun name member => plain name (List.mem_cons_of_mem head member)),
        isAbsolute_join headPlain.isAbsolute written]

/-! ## Taking the base away -/

theorem dropWhile_isFiller_of_plain
    {names : List String} (plain : ∀ name ∈ names, PlainName name) :
    names.dropWhile isFiller = names := by
  cases names with
  | nil =>
      rfl
  | cons head tail =>
      rw [List.dropWhile_cons_of_neg]
      simp [isFiller_of_plain (plain head List.mem_cons_self)]

/-- Pieces are dropped up to the last one that contributes a component. -/
theorem dropComponents_append
    (front : List String) {names : List String} (plain : ∀ name ∈ names, PlainName name) :
    dropComponents (front.filterMap laterComponent?) (front ++ names) = some names := by
  induction front with
  | nil =>
      simp [dropComponents, dropWhile_isFiller_of_plain plain]
  | cons head tail inductionHypothesis =>
      cases found : laterComponent? head with
      | none =>
          have filler := (laterComponent?_eq_none_iff head).1 found
          rw [List.filterMap_cons_none found, List.cons_append]
          cases wanted : tail.filterMap laterComponent? with
          | nil =>
              rw [wanted] at inductionHypothesis
              simpa [dropComponents, List.dropWhile_cons_of_pos filler] using inductionHypothesis
          | cons component rest =>
              rw [wanted] at inductionHypothesis
              simpa [dropComponents, List.dropWhile_cons_of_pos filler] using inductionHypothesis
      | some component =>
          have solid : ¬ isFiller head = true := by
            rw [← laterComponent?_eq_none_iff, found]
            simp
          rw [List.filterMap_cons_some found, List.cons_append, dropComponents,
            List.dropWhile_cons_of_neg solid]
          simp [found, inductionHypothesis]

theorem trimEnd_of_plain
    (relative : Bool) (front : List String) {names : List String}
    (nonempty : names ≠ []) (plain : ∀ name ∈ names, PlainName name) :
    trimEnd relative (front ++ names) = front ++ names := by
  have solidEnd :
      ∀ pieces : List String,
        ((pieces ++ names).reverse.dropWhile isFiller).reverse = pieces ++ names := by
    intro pieces
    obtain ⟨initial, last, split⟩ := List.eq_nil_or_concat names |>.resolve_left nonempty
    have solid : ¬ isFiller last = true := by
      simp [isFiller_of_plain (plain last (by simp [split]))]
    rw [split, List.concat_eq_append, ← List.append_assoc, List.reverse_append,
      List.reverse_singleton, List.singleton_append, List.dropWhile_cons_of_neg solid]
    simp
  cases front with
  | nil =>
      obtain ⟨first, rest, split⟩ := List.exists_cons_of_ne_nil nonempty
      have firstSolid : isFiller first = false :=
        isFiller_of_plain (plain first (by simp [split]))
      by_cases restEmpty : rest = []
      · simp [split, restEmpty, trimEnd, firstSolid]
      · have restPlain : ∀ name ∈ rest, PlainName name :=
          fun name member => plain name (by simp [split, member])
        obtain ⟨initial, last, restSplit⟩ :=
          List.eq_nil_or_concat rest |>.resolve_left restEmpty
        have solid : ¬ isFiller last = true := by
          simp [isFiller_of_plain (restPlain last (by simp [restSplit]))]
        simp [split, trimEnd, restSplit, List.dropWhile_cons_of_neg solid, firstSolid]
  | cons head tail =>
      have kept := solidEnd tail
      rw [List.cons_append, trimEnd, kept]
      simp [nonempty]

/-- Taking a path away from a path below it leaves the names. -/
theorem relativeTo?_below
    (base : Path) {names : List String}
    (nonempty : names ≠ []) (plain : ∀ name ∈ names, PlainName name) :
    (base.below names).relativeTo? base = some ⟨Text.joinWith "/" names⟩ := by
  have ending : (names.reverse.dropWhile isFiller).reverse = names := by
    rw [dropWhile_isFiller_of_plain (fun name member => plain name (List.mem_reverse.1 member)),
      List.reverse_reverse]
  have components := components_below base plain
  by_cases written : base.text = ""
  · have empty : base = ⟨""⟩ := eq_empty written
    obtain ⟨first, rest, split⟩ := List.exists_cons_of_ne_nil nonempty
    have relative : (Path.mk (Text.joinWith "/" names)).isAbsolute = false := by
      rw [split]
      exact isAbsolute_joinWith rest (plain first (by simp [split]))
    have trimmed := trimEnd_of_plain true [] nonempty plain
    rw [below_eq_join base nonempty plain, empty, join_empty, relativeTo?, components_empty]
    simp only [relative, body_of_relative relative, pieces_joinWith nonempty plain]
    rw [List.nil_append] at trimmed
    simp [ofBody, trimmed]
  · have body := body_below written nonempty plain
    have kind := isAbsolute_below written plain
    cases absolute : base.isAbsolute with
    | true =>
        have whole := components_of_isAbsolute absolute
        rw [whole, List.cons_append] at components
        rw [relativeTo?, whole, components, ← filterMap_core]
        simp [body, dropComponents_append base.core plain, ofBody, ending]
    | false =>
        rw [absolute] at kind
        obtain ⟨first, component, later, core, equality, whole⟩ :=
          components_of_relative absolute written
        have notTop : component ≠ .top := by
          rintro rfl
          exact firstComponent?_ne_top first equality
        rw [whole, List.cons_append] at components
        rw [relativeTo?, whole, components]
        simp [notTop, body, core, dropComponents_append later plain, ofBody, ending]

end ClojureBuild.Path
