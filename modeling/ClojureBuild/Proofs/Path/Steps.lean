import Mathlib.Data.List.Induction
import ClojureBuild.Proofs.Path.Order
import ClojureBuild.Workspace

/-!
# Steps of a path

The steps of a path are its pieces without fillers.  The parent of a path has all steps but the last
one, and so the steps of the paths above it are initial parts of its own.
-/

namespace ClojureBuild.Path

variable {path parent above base : Path} {names : List String}

/-- The pieces of a path that lead somewhere. -/
def steps (path : Path) : List String :=
  path.body.filter fun piece => !isFiller piece

theorem steps_empty : (Path.mk "").steps = [] :=
  rfl

theorem filter_core (path : Path) :
    path.core.filter (fun piece => !isFiller piece) = path.steps := by
  rw [steps]
  rcases body_eq_core path with equality | equality
  · rw [equality]
  · rw [equality, List.filter_append]
    simp [isFiller]

theorem filter_of_plain (plainNames : ∀ name ∈ names, PlainName name) :
    names.filter (fun piece => !isFiller piece) = names := by
  rw [List.filter_eq_self]
  intro name member
  simp [isFiller_of_plain (plainNames name member)]

/-- The pieces of a path below another one end in the names that lead there. -/
theorem exists_body_below
    (base : Path) (nonempty : names ≠ []) (plainNames : ∀ name ∈ names, PlainName name) :
    ∃ front, (base.below names).body = front ++ names ∧
      front.filter (fun piece => !isFiller piece) = base.steps := by
  by_cases written : base.text = ""
  · have empty : base = ⟨""⟩ := eq_empty written
    obtain ⟨first, rest, split⟩ := List.exists_cons_of_ne_nil nonempty
    have relative : (Path.mk (Text.joinWith "/" names)).isAbsolute = false := by
      rw [split]
      exact isAbsolute_joinWith rest (plainNames first (by simp [split]))
    refine ⟨[], ?_, by rw [empty]; rfl⟩
    rw [below_eq_join base nonempty plainNames, empty, join_empty, body_of_relative relative,
      pieces_joinWith nonempty plainNames, List.nil_append]
  · exact ⟨base.core, body_below written nonempty plainNames, filter_core base⟩

theorem steps_below (base : Path) (plainNames : ∀ name ∈ names, PlainName name) :
    (base.below names).steps = base.steps ++ names := by
  by_cases empty : names = []
  · simp [empty]
  · obtain ⟨front, body, filtered⟩ := exists_body_below base empty plainNames
    rw [steps, body, List.filter_append, filtered, filter_of_plain plainNames]

theorem slash_notMem_of_mem_body {piece : String} (member : piece ∈ path.body) :
    '/' ∉ piece.toList := by
  have inPieces : piece ∈ path.pieces := by
    rw [body] at member
    split at member
    · exact List.mem_of_mem_drop member
    · exact member
  exact Text.separator_notMem_of_mem_fields inPieces

theorem mem_steps_iff (path : Path) (step : String) :
    step ∈ path.steps ↔ step ∈ path.body ∧ step ≠ "" ∧ step ≠ "." := by
  simp [steps, isFiller]

theorem plainName_of_mem_steps (onward : ".." ∉ path.steps) :
    ∀ step ∈ path.steps, PlainName step := by
  intro step member
  obtain ⟨inBody, written, notCurrent⟩ := (mem_steps_iff path step).1 member
  refine ⟨written, notCurrent, ?_, slash_notMem_of_mem_body inBody⟩
  rintro rfl
  exact onward member

theorem mem_joinWith_iff
    {separator : String} {letter : Char} (other : letter ∉ separator.toList)
    {texts : List String} :
    letter ∈ (Text.joinWith separator texts).toList ↔
      ∃ text ∈ texts, letter ∈ text.toList := by
  induction texts with
  | nil =>
      simp [Text.joinWith]
  | cons head tail inductionHypothesis =>
      by_cases last : tail = []
      · simp [last, Text.joinWith]
      · rw [Text.joinWith_cons separator head last]
        simp [other, inductionHypothesis]

/-- Apart from slashes and dots a path has the letters of its steps. -/
theorem mem_text_iff
    (path : Path) {letter : Char} (notSlash : letter ≠ '/') (notDot : letter ≠ '.') :
    letter ∈ path.text.toList ↔ ∃ step ∈ path.steps, letter ∈ step.toList := by
  have joined := Text.joinWith_fields '/' path.text
  have separator : letter ∉ (String.singleton '/').toList := by
    simpa using notSlash
  have inBody :
      (∃ piece ∈ path.pieces, letter ∈ piece.toList) ↔
        ∃ piece ∈ path.body, letter ∈ piece.toList := by
    cases absolute : path.isAbsolute with
    | false =>
        rw [body_of_relative absolute]
    | true =>
        simp [pieces_of_isAbsolute absolute]
  rw [← joined, mem_joinWith_iff separator, ← pieces, inBody, steps]
  constructor
  · rintro ⟨piece, member, inPiece⟩
    refine ⟨piece, List.mem_filter.2 ⟨member, ?_⟩, inPiece⟩
    cases filler : isFiller piece with
    | false =>
        rfl
    | true =>
        rcases (isFiller_iff piece).1 filler with rfl | rfl
        · cases inPiece
        · exact absurd (by simpa using inPiece) notDot
  · rintro ⟨step, member, inStep⟩
    exact ⟨step, (List.mem_filter.1 member).1, inStep⟩

theorem zero_notMem_text_iff (path : Path) :
    '\x00' ∉ path.text.toList ↔ ∀ step ∈ path.steps, '\x00' ∉ step.toList := by
  rw [path.mem_text_iff (by decide) (by decide)]
  simp

theorem text_ne_empty_of_isAbsolute (absolute : path.isAbsolute = true) : path.text ≠ "" := by
  intro empty
  simp [isAbsolute, empty] at absolute

/-! ## Paths put together from pieces -/

/-- Pieces that a body can be made of: none of them has a slash in it, and in a relative path of
several pieces the first one is not empty. -/
structure Writes (absolute : Bool) (pieces : List String) : Prop where
  free : ∀ piece ∈ pieces, '/' ∉ piece.toList
  first : absolute = false → ∀ next rest, pieces ≠ "" :: next :: rest

theorem writes_body (path : Path) : Writes path.isAbsolute path.body where
  free := fun _ => slash_notMem_of_mem_body
  first := by
    intro relative next rest split
    rw [body_of_relative relative] at split
    have empty := pieces_eq_nil_cons_of_relative relative split
    rw [pieces, empty] at split
    have none : Text.fields '/' "" = [""] := rfl
    rw [none] at split
    simp at split

/-- An initial part of such pieces is made of them as well. -/
theorem Writes.initial
    {absolute : Bool} {pieces initial : List String} (writes : Writes absolute pieces)
    (isInitial : initial <+: pieces) : Writes absolute initial where
  free := fun piece member => writes.free piece (isInitial.subset member)
  first := by
    intro relative next rest split
    obtain ⟨others, rfl⟩ := isInitial
    exact writes.first relative next (rest ++ others) (by rw [split]; rfl)

theorem isAbsolute_ofBody
    {absolute : Bool} {pieces : List String} (writes : Writes absolute pieces) :
    (ofBody absolute pieces).isAbsolute = absolute := by
  cases absolute with
  | true =>
      simp [ofBody, isAbsolute]
  | false =>
      cases pieces with
      | nil =>
          rfl
      | cons first rest =>
          have notSlash : first.toList.head? ≠ some '/' := by
            intro slash
            exact writes.free first List.mem_cons_self (List.mem_of_head? slash)
          cases rest with
          | nil =>
              simpa [ofBody, isAbsolute, Text.joinWith] using notSlash
          | cons next others =>
              have letters : first.toList ≠ [] := by
                intro empty
                exact writes.first rfl next others (by rw [String.toList_eq_nil_iff.1 empty])
              obtain ⟨letter, more, split⟩ := List.exists_cons_of_ne_nil letters
              rw [split] at notSlash
              simpa [ofBody, isAbsolute, Text.joinWith, split] using notSlash

theorem body_ofBody
    {absolute : Bool} {pieces : List String} (writes : Writes absolute pieces) :
    (ofBody absolute pieces).body = if pieces = [] then [""] else pieces := by
  have body : (ofBody absolute pieces).body = Text.fields '/' (Text.joinWith "/" pieces) := by
    cases absolute with
    | true =>
        have text : (ofBody true pieces).text =
            "" ++ String.singleton '/' ++ Text.joinWith "/" pieces := by
          simp [ofBody, slash_eq]
        have empty : Text.fields '/' "" = [""] := rfl
        rw [Path.body, isAbsolute_ofBody writes, if_pos rfl, Path.pieces, text, Text.fields_append,
          empty]
        rfl
    | false =>
        rw [body_of_relative (isAbsolute_ofBody writes), Path.pieces, ofBody]
        simp
  rw [body]
  split
  · next none =>
      rw [none]
      rfl
  · next some =>
      rw [slash_eq, Text.fields_joinWith some writes.free]

theorem steps_ofBody
    {absolute : Bool} {pieces : List String} (writes : Writes absolute pieces) :
    (ofBody absolute pieces).steps = pieces.filter fun piece => !isFiller piece := by
  rw [steps, body_ofBody writes]
  split
  · next none =>
      rw [none]
      rfl
  · rfl

theorem ofBody_body (path : Path) : ofBody path.isAbsolute path.body = path := by
  have joined := Text.joinWith_fields '/' path.text
  rw [← pieces] at joined
  cases absolute : path.isAbsolute with
  | true =>
      rw [pieces_of_isAbsolute absolute, Text.joinWith_cons _ _ (body_ne_nil path), ← slash_eq,
        String.empty_append] at joined
      rw [ofBody, if_pos rfl, joined]
  | false =>
      rw [ofBody, body_of_relative absolute, slash_eq, joined]
      simp

/-! ## Fillers at the end -/

theorem filter_trimmed
    {drops : String → Bool} (fillersOnly : ∀ piece, drops piece = true → isFiller piece = true)
    (pieces : List String) :
    ((pieces.reverse.dropWhile drops).reverse).filter (fun piece => !isFiller piece) =
      pieces.filter fun piece => !isFiller piece := by
  induction pieces using List.reverseRecOn with
  | nil =>
      rfl
  | append_singleton front last inductionHypothesis =>
      cases dropped : drops last with
      | true =>
          simp [dropped, fillersOnly last dropped, inductionHypothesis]
      | false =>
          simp [dropped]

theorem dropWhile_reverse_isPrefix (drops : String → Bool) (pieces : List String) :
    (pieces.reverse.dropWhile drops).reverse <+: pieces := by
  rw [← List.reverse_suffix, List.reverse_reverse]
  exact List.dropWhile_suffix drops

theorem trimEnd_isPrefix
    (relative : Bool) (pieces : List String) : trimEnd relative pieces <+: pieces := by
  cases pieces with
  | nil =>
      simp [trimEnd]
  | cons first later =>
      simp only [trimEnd]
      split
      · exact List.nil_prefix
      · exact List.cons_prefix_cons.2 ⟨rfl, dropWhile_reverse_isPrefix isFiller later⟩

theorem filter_trimEnd (relative : Bool) (pieces : List String) :
    (trimEnd relative pieces).filter (fun piece => !isFiller piece) =
      pieces.filter fun piece => !isFiller piece := by
  cases pieces with
  | nil =>
      rfl
  | cons first later =>
      have kept := filter_trimmed (fun _ filler => filler) later
      simp only [trimEnd]
      split
      · next none =>
          simp only [Bool.and_eq_true, List.isEmpty_iff] at none
          rw [none.1.1] at kept
          rw [List.filter_cons_of_neg (by simp [none.2]), ← kept]
      · rw [List.filter_cons, List.filter_cons, kept]

/-- Trimmed pieces are at most one or end in one that is no filler. -/
theorem trimEnd_short_or_solid (relative : Bool) (pieces : List String) :
    (trimEnd relative pieces).dropLast = [] ∨
      ∃ front last, trimEnd relative pieces = front ++ [last] ∧ isFiller last = false := by
  cases pieces with
  | nil =>
      exact Or.inl rfl
  | cons first later =>
      simp only [trimEnd]
      split
      · exact Or.inl rfl
      · cases trimmed : later.reverse.dropWhile isFiller with
        | nil =>
            exact Or.inl rfl
        | cons last front =>
            right
            refine ⟨first :: front.reverse, last, by simp, ?_⟩
            have solid := List.head?_dropWhile_not isFiller later.reverse
            rw [trimmed] at solid
            simpa using solid

theorem filter_dropLast_trimEnd (relative : Bool) (pieces : List String) :
    ((trimEnd relative pieces).dropLast).filter (fun piece => !isFiller piece) =
      (pieces.filter fun piece => !isFiller piece).dropLast := by
  rw [← filter_trimEnd relative pieces]
  rcases trimEnd_short_or_solid relative pieces with short | ⟨front, last, split, solid⟩
  · have length := congrArg List.length short
    rw [short, List.filter_nil, eq_comm, ← List.length_eq_zero_iff, List.length_dropLast]
    rw [List.length_dropLast, List.length_nil] at length
    have filtered := List.length_filter_le (fun piece => !isFiller piece) (trimEnd relative pieces)
    omega
  · rw [split, List.dropLast_concat, List.filter_append]
    simp [solid]

/-! ## Parents -/

/-- The parent of a path has all steps but the last one. -/
theorem of_parent?_eq_some (found : path.parent? = some parent) :
    parent.isAbsolute = path.isAbsolute ∧ parent.steps = path.steps.dropLast := by
  have writes :
      Writes path.isAbsolute
        (trimEnd (!path.isAbsolute) (trimEnd (!path.isAbsolute) path.body).dropLast) :=
    path.writes_body.initial ((trimEnd_isPrefix _ _).trans
      ((List.dropLast_prefix _).trans (trimEnd_isPrefix _ _)))
  unfold parent? at found
  split at found
  · cases found
  · cases found
    refine ⟨isAbsolute_ofBody writes, ?_⟩
    rw [steps_ofBody writes, filter_trimEnd, filter_dropLast_trimEnd, steps]

/-- Only the top has no steps and no parent. -/
theorem steps_of_parent?_eq_none
    (absolute : path.isAbsolute = true) (top : path.parent? = none) : path.steps = [] := by
  have components := components_of_isAbsolute absolute
  unfold parent? at top
  split at top
  · next small =>
      simp only [components, List.isEmpty_cons, Bool.false_or, beq_iff_eq, List.cons.injEq,
        true_and] at small
      rw [steps, List.filter_eq_nil_iff]
      intro piece member
      have noComponent := List.filterMap_eq_nil_iff.1 small piece member
      simp [(laterComponent?_eq_none_iff piece).1 noComponent]
  · cases top

theorem parent?_below_isSome
    (base : Path) (nonempty : names ≠ []) (plainNames : ∀ name ∈ names, PlainName name) :
    ∃ parent, (base.below names).parent? = some parent := by
  obtain ⟨first, rest, split⟩ := List.exists_cons_of_ne_nil nonempty
  have components := components_below base plainNames
  have named : Component.name first ∈ (base.below names).components := by
    rw [components, split]
    simp
  unfold parent?
  split
  · next small =>
      exfalso
      simp only [Bool.or_eq_true, List.isEmpty_iff, beq_iff_eq] at small
      rcases small with none | top
      · rw [none] at named
        cases named
      · rw [top] at named
        simp at named
  · exact ⟨_, rfl⟩

/-- The parent of a path that plain names spell is spelled by all of them but the last one. -/
theorem parent?_joinWith {last : String} (plain : ∀ name ∈ names ++ [last], PlainName name) :
    (Path.mk (Text.joinWith "/" (names ++ [last]))).parent? =
      some ⟨Text.joinWith "/" names⟩ := by
  have nonempty : names ++ [last] ≠ [] := by
    simp
  have relative : (Path.mk (Text.joinWith "/" (names ++ [last]))).isAbsolute = false := by
    obtain ⟨first, rest, split⟩ := List.exists_cons_of_ne_nil nonempty
    rw [split]
    exact isAbsolute_joinWith rest (plain first (by simp [split]))
  have body : (Path.mk (Text.joinWith "/" (names ++ [last]))).body = names ++ [last] := by
    rw [body_of_relative relative, pieces_joinWith nonempty plain]
  have named : ((Path.mk (Text.joinWith "/" (names ++ [last]))).components.isEmpty ||
      (Path.mk (Text.joinWith "/" (names ++ [last]))).components == [.top]) = false := by
    rw [components_joinWith nonempty plain]
    cases names with
    | nil =>
        simp
    | cons first rest =>
        simp
  have trimmed : trimEnd true (names ++ [last]) = names ++ [last] :=
    trimEnd_of_plain true [] nonempty plain
  have trimmedParent : trimEnd true names = names := by
    by_cases alone : names = []
    · rw [alone]
      rfl
    · exact trimEnd_of_plain true [] alone fun name member =>
        plain name (List.mem_append_left [last] member)
  rw [parent?, named, relative, body, Bool.not_false, trimmed, List.dropLast_concat]
  simp [trimmedParent, ofBody]

/-- The paths above a path start with the same steps. -/
theorem of_mem_withAncestors
    {bound : Nat} (member : above ∈ Workspace.withAncestors bound path) :
    above.isAbsolute = path.isAbsolute ∧ above.steps <+: path.steps := by
  induction bound generalizing path with
  | zero =>
      cases member
  | succ bound inductionHypothesis =>
      rw [Workspace.withAncestors] at member
      split at member
      · cases member
      · next parent found =>
          obtain ⟨parentKind, parentSteps⟩ := of_parent?_eq_some found
          rcases List.mem_cons.1 member with rfl | behind
          · exact ⟨rfl, List.prefix_rfl⟩
          · obtain ⟨aboveKind, initial⟩ := inductionHypothesis behind
            rw [parentSteps] at initial
            exact ⟨aboveKind.trans parentKind, initial.trans (List.dropLast_prefix _)⟩

/-! ## Slashes at the end -/

theorem writes_withoutTrailingSlashes (path : Path) :
    Writes path.isAbsolute (path.body.reverse.dropWhile String.isEmpty).reverse :=
  path.writes_body.initial (dropWhile_reverse_isPrefix _ _)

theorem isAbsolute_withoutTrailingSlashes (path : Path) :
    path.withoutTrailingSlashes.isAbsolute = path.isAbsolute :=
  isAbsolute_ofBody path.writes_withoutTrailingSlashes

/-- No slash is left at the end of other pieces. -/
theorem body_withoutTrailingSlashes_ne (path : Path) {front : List String} (nonempty : front ≠ []) :
    path.withoutTrailingSlashes.body ≠ front ++ [""] := by
  rw [withoutTrailingSlashes, body_ofBody path.writes_withoutTrailingSlashes]
  split
  · intro whole
    have lengths := congrArg List.length whole
    simp only [List.length_append, List.length_singleton] at lengths
    exact nonempty (List.length_eq_zero_iff.1 (by omega))
  · intro split
    have first := List.head?_dropWhile_not String.isEmpty path.body.reverse
    rw [List.reverse_eq_iff, List.reverse_append] at split
    rw [split] at first
    simp at first

theorem endsInSlash_of_pieces {front : List String} (nonempty : front ≠ [])
    (ends : path.pieces = front ++ [""]) : path.endsInSlash = true := by
  have joined : Text.joinWith (String.singleton '/') path.pieces = path.text :=
    Text.joinWith_fields '/' path.text
  rw [ends, Text.joinWith_append _ nonempty (List.cons_ne_nil _ _)] at joined
  simp [endsInSlash, ← joined, Text.joinWith]

theorem withoutTrailingSlashes_eq_self (plainEnd : path.endsInSlash = false) :
    path.withoutTrailingSlashes = path := by
  have noEmptyEnd {front : List String} (nonempty : front ≠ []) :
      path.pieces ≠ front ++ [""] := by
    intro ends
    rw [endsInSlash_of_pieces nonempty ends] at plainEnd
    cases plainEnd
  obtain ⟨front, last, split⟩ := (List.eq_nil_or_concat path.body).resolve_left path.body_ne_nil
  rw [List.concat_eq_append] at split
  by_cases solid : last = ""
  · rw [solid] at split
    cases absolute : path.isAbsolute with
    | true =>
        have ends := pieces_of_isAbsolute absolute
        rw [split, ← List.cons_append] at ends
        exact absurd ends (noEmptyEnd (List.cons_ne_nil "" front))
    | false =>
        by_cases alone : front = []
        · -- only the empty path has an empty last piece and no slash
          conv_rhs => rw [← ofBody_body path, absolute, split, alone]
          rw [withoutTrailingSlashes, absolute, split, alone]
          rfl
        · rw [body_of_relative absolute] at split
          exact absurd split (noEmptyEnd alone)
  · have kept : (path.body.reverse.dropWhile String.isEmpty).reverse = path.body := by
      rw [split, List.reverse_append, List.reverse_singleton, List.singleton_append,
        List.dropWhile_cons_of_neg (by simpa [String.isEmpty_iff] using solid)]
      simp
    rw [withoutTrailingSlashes, kept, ofBody_body]

theorem steps_withoutTrailingSlashes (path : Path) :
    path.withoutTrailingSlashes.steps = path.steps := by
  have emptyIsFiller : ∀ piece : String, piece.isEmpty = true → isFiller piece = true := by
    intro piece empty
    simp [isFiller, String.isEmpty_iff.1 empty]
  rw [withoutTrailingSlashes, steps_ofBody path.writes_withoutTrailingSlashes,
    filter_trimmed emptyIsFiller, steps]

/-! ## Same paths and absolute forms -/

/-- The steps of a path are its components, apart from the top and a leading dot. -/
theorem steps_eq_components (path : Path) :
    path.steps =
      (path.components.filter fun component => component ≠ .top ∧ component ≠ .current).map
        Component.text := by
  rw [filter_components, steps, filter_eq_map_text]

theorem isAbsolute_eq_components (path : Path) :
    path.isAbsolute = (path.components.head? == some .top) := by
  cases absolute : path.isAbsolute with
  | true =>
      rw [components_of_isAbsolute absolute]
      rfl
  | false =>
      by_cases written : path.text = ""
      · have noComponents : path.components = [] := by
          have empty : path = ⟨""⟩ := eq_empty written
          rw [empty]
          rfl
        rw [noComponents]
        rfl
      · obtain ⟨first, component, later, -, isFirst, components⟩ :=
          components_of_relative absolute written
        have notTop : component ≠ .top := by
          intro top
          rw [top] at isFirst
          exact firstComponent?_ne_top first isFirst
        rw [components, List.head?_cons]
        simpa using notTop

theorem isAbsolute_eq_of_same {left right : Path} (same : left.same right = true) :
    left.isAbsolute = right.isAbsolute := by
  rw [isAbsolute_eq_components, isAbsolute_eq_components, same_iff.1 same]

/-- Paths that are the same have the same steps. -/
theorem steps_eq_of_same {left right : Path} (same : left.same right = true) :
    left.steps = right.steps := by
  rw [steps_eq_components, steps_eq_components, same_iff.1 same]

theorem isAbsolute_join_of_left {base inner : Path} (absolute : base.isAbsolute = true) :
    (base.join inner).isAbsolute = true := by
  cases kind : inner.isAbsolute with
  | true =>
      simp [join, kind]
  | false =>
      rw [isAbsolute_join kind (text_ne_empty_of_isAbsolute absolute), absolute]

theorem isAbsolute_foldl_join
    {base : Path} (absolute : base.isAbsolute = true) (components : List Component) :
    (components.foldl (fun path step => path.join ⟨step.text⟩) base).isAbsolute = true := by
  induction components generalizing base with
  | nil =>
      exact absolute
  | cons step rest inductionHypothesis =>
      exact inductionHypothesis (isAbsolute_join_of_left absolute)

theorem components_eq_steps (absolute : path.isAbsolute = true) :
    path.components = .top :: path.steps.filterMap laterComponent? := by
  have unfiltered :
      (fun piece => if (!isFiller piece) = true then laterComponent? piece else none) =
        laterComponent? := by
    funext piece
    cases filler : isFiller piece with
    | false =>
        rfl
    | true =>
        exact ((laterComponent?_eq_none_iff piece).2 filler).symm
  rw [components_of_isAbsolute absolute, steps, List.filterMap_filter, unfiltered]

theorem components_of_plain_steps
    (absolute : path.isAbsolute = true) (onward : ∀ step ∈ path.steps, PlainName step) :
    path.components = .top :: path.steps.map .name := by
  rw [components_eq_steps absolute, filterMap_laterComponent?_of_plain onward]

/-- Absolute paths with the same steps are the same. -/
theorem same_of_steps_eq {left right : Path} (leftAbsolute : left.isAbsolute = true)
    (rightAbsolute : right.isAbsolute = true) (steps : left.steps = right.steps) :
    left.same right = true := by
  rw [same, beq_iff_eq, components_eq_steps leftAbsolute, components_eq_steps rightAbsolute, steps]

/-- The absolute form of a path is absolute. -/
theorem isAbsolute_of_absolute?
    {current absolutePath : Path} (currentAbsolute : current.isAbsolute = true)
    (found : path.absolute? current = some absolutePath) : absolutePath.isAbsolute = true := by
  unfold absolute? at found
  split at found
  · cases found
  · have normal :
        ∀ base : Path, base.isAbsolute = true → ∀ steps : List Component,
          ((if path.endsInSlash then
              (steps.foldl (fun path step => path.join ⟨step.text⟩) base).join ⟨""⟩
            else
              steps.foldl (fun path step => path.join ⟨step.text⟩) base) : Path).isAbsolute =
            true := by
      intro base baseAbsolute steps
      split
      · exact isAbsolute_join_of_left (isAbsolute_foldl_join baseAbsolute steps)
      · exact isAbsolute_foldl_join baseAbsolute steps
    cases found
    cases double : path.hasDoubleTop with
    | true =>
        exact normal ⟨"//"⟩ (by decide) _
    | false =>
        cases absolute : path.isAbsolute with
        | false =>
            exact normal current currentAbsolute _
        | true =>
            have top :
                path.components.filter (fun component => component ≠ .current) =
                  .top :: (path.body.filterMap laterComponent?).filter
                    (fun component => component ≠ .current) := by
              rw [components_of_isAbsolute absolute]
              rfl
            simp only [top, if_true, Bool.false_eq_true, if_false, List.foldl_cons]
            exact normal _ (by decide) _

end ClojureBuild.Path
