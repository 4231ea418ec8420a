import ClojureBuild.Path
import ClojureBuild.Proofs.Text.Fields
import Mathlib.Logic.Function.Basic

/-!
# Paths below a path

What joining does to the pieces and to the components of a path.  The names of entries are plain:
joining them to a path, one after the other, adds exactly these names to its components, and taking
the path away again leaves exactly these names.
-/

namespace ClojureBuild

/-- A name that stands for itself in a path. -/
structure PlainName (name : String) : Prop where
  nonempty : name ≠ ""
  notCurrent : name ≠ "."
  notParent : name ≠ ".."
  noSlash : '/' ∉ name.toList

namespace Path

theorem text_injective : Function.Injective text := by
  rintro ⟨left⟩ ⟨right⟩ same
  exact congrArg Path.mk same

/-! ## Pieces of a join -/

/-- The pieces of the body without the empty one after a slash at the end. -/
def core (path : Path) : List String :=
  if path.endsInSlash then path.body.dropLast else path.body

theorem isFiller_iff (piece : String) :
    isFiller piece = true ↔ piece = "" ∨ piece = "." := by
  simp [isFiller]

theorem isFiller_eq_false_iff (piece : String) :
    isFiller piece = false ↔ ¬ (piece = "" ∨ piece = ".") := by
  rw [← isFiller_iff, Bool.not_eq_true]

theorem filter_cons_of_filler
    {piece : String} (filler : piece = "" ∨ piece = ".") (rest : List String) :
    ((piece :: rest).filter fun piece => !isFiller piece) =
      rest.filter fun piece => !isFiller piece :=
  List.filter_cons_of_neg (by simpa using (isFiller_iff piece).2 filler)

theorem filter_cons_of_solid
    {piece : String} (solid : ¬ (piece = "" ∨ piece = ".")) (rest : List String) :
    ((piece :: rest).filter fun piece => !isFiller piece) =
      piece :: rest.filter fun piece => !isFiller piece :=
  List.filter_cons_of_pos (by simpa using (isFiller_eq_false_iff piece).2 solid)

theorem slash_eq : ("/" : String) = String.singleton '/' := by
  decide

theorem pieces_ne_nil (path : Path) : path.pieces ≠ [] :=
  Text.fields_ne_nil '/' path.text

theorem exists_of_endsInSlash
    {path : Path} (slash : path.endsInSlash = true) :
    ∃ front : String, path.text = front ++ String.singleton '/' := by
  have last : path.text.toList.getLast? = some '/' := by
    simpa [endsInSlash] using slash
  obtain ⟨front, split⟩ := List.getLast?_eq_some_iff.1 last
  refine ⟨String.ofList front, ?_⟩
  apply String.toList_injective
  simpa using split

theorem exists_of_isAbsolute
    {path : Path} (absolute : path.isAbsolute = true) :
    ∃ rest : String, path.text = String.singleton '/' ++ rest := by
  have first : path.text.toList.head? = some '/' := by
    simpa [isAbsolute] using absolute
  obtain ⟨rest, split⟩ := List.head?_eq_some_iff.1 first
  refine ⟨String.ofList rest, ?_⟩
  apply String.toList_injective
  simpa using split

/-- The first piece of an absolute path is empty. -/
theorem pieces_of_isAbsolute
    {path : Path} (absolute : path.isAbsolute = true) :
    path.pieces = "" :: path.body := by
  obtain ⟨rest, text⟩ := exists_of_isAbsolute absolute
  have split := Text.fields_append '/' "" rest
  have empty : Text.fields '/' "" = [""] := rfl
  rw [String.empty_append, ← text, empty] at split
  simp [body, absolute, pieces, split]

theorem body_of_relative
    {path : Path} (relative : path.isAbsolute = false) :
    path.body = path.pieces := by
  simp [body, relative]

theorem body_ne_nil (path : Path) : path.body ≠ [] := by
  cases absolute : path.isAbsolute with
  | false =>
      rw [body_of_relative absolute]
      exact pieces_ne_nil path
  | true =>
      obtain ⟨rest, text⟩ := exists_of_isAbsolute absolute
      have split := Text.fields_append '/' "" rest
      have empty : Text.fields '/' "" = [""] := rfl
      rw [String.empty_append, ← text, empty] at split
      simpa [body, absolute, pieces, split] using Text.fields_ne_nil '/' rest

theorem pieces_of_endsInSlash
    {path : Path} (slash : path.endsInSlash = true) :
    path.pieces = path.pieces.dropLast ++ [""] := by
  obtain ⟨front, text⟩ := exists_of_endsInSlash slash
  have split := Text.fields_append '/' front ""
  have empty : Text.fields '/' "" = [""] := rfl
  rw [String.append_empty, ← text, empty] at split
  simp [pieces, split]

theorem body_of_endsInSlash
    {path : Path} (slash : path.endsInSlash = true) :
    path.body = path.body.dropLast ++ [""] := by
  have split := pieces_of_endsInSlash slash
  cases absolute : path.isAbsolute with
  | false =>
      rwa [body_of_relative absolute]
  | true =>
      have leading := pieces_of_isAbsolute absolute
      have nonempty := body_ne_nil path
      rw [leading, List.dropLast_cons_of_ne_nil nonempty, List.cons_append] at split
      exact (List.cons.inj split).2

/-- The body is the core, with an empty piece after it when the path ends in a slash. -/
theorem body_eq_core (path : Path) :
    path.body = path.core ∨ path.body = path.core ++ [""] := by
  cases slash : path.endsInSlash with
  | false =>
      left
      simp [core, slash]
  | true =>
      right
      simpa [core, slash] using body_of_endsInSlash slash

theorem join_of_endsInSlash
    {base inner : Path} (relative : inner.isAbsolute = false) (written : base.text ≠ "")
    (slash : base.endsInSlash = true) :
    base.join inner = ⟨base.text ++ inner.text⟩ := by
  have named : (base.text == "") = false := by
    simpa using written
  rw [join, relative, named, slash]
  rfl

theorem join_of_not_endsInSlash
    {base inner : Path} (relative : inner.isAbsolute = false) (written : base.text ≠ "")
    (plainEnd : base.endsInSlash = false) :
    base.join inner = ⟨base.text ++ "/" ++ inner.text⟩ := by
  have named : (base.text == "") = false := by
    simpa using written
  rw [join, relative, named, plainEnd]
  rfl

theorem isAbsolute_join
    {base inner : Path} (relative : inner.isAbsolute = false) (written : base.text ≠ "") :
    (base.join inner).isAbsolute = base.isAbsolute := by
  have letters : base.text.toList ≠ [] := by
    simpa using written
  obtain ⟨head, tail, split⟩ := List.exists_cons_of_ne_nil letters
  cases slash : base.endsInSlash with
  | false =>
      simp [join_of_not_endsInSlash relative written slash, isAbsolute, split]
  | true =>
      simp [join_of_endsInSlash relative written slash, isAbsolute, split]

theorem text_join_ne_empty
    {base inner : Path} (relative : inner.isAbsolute = false) (written : base.text ≠ "") :
    (base.join inner).text ≠ "" := by
  cases slash : base.endsInSlash with
  | false =>
      simp [join_of_not_endsInSlash relative written slash]
  | true =>
      simp [join_of_endsInSlash relative written slash, written]

theorem mem_text_join_iff
    {base inner : Path} {letter : Char} (relative : inner.isAbsolute = false)
    (written : base.text ≠ "") (noSlash : letter ≠ '/') :
    letter ∈ (base.join inner).text.toList ↔
      letter ∈ base.text.toList ∨ letter ∈ inner.text.toList := by
  cases slash : base.endsInSlash with
  | false =>
      simp [join_of_not_endsInSlash relative written slash, noSlash]
  | true =>
      simp [join_of_endsInSlash relative written slash]

theorem pieces_join
    {base inner : Path} (relative : inner.isAbsolute = false) (written : base.text ≠ "") :
    (base.join inner).pieces =
      (if base.endsInSlash then base.pieces.dropLast else base.pieces) ++ inner.pieces := by
  cases slash : base.endsInSlash with
  | false =>
      rw [join_of_not_endsInSlash relative written slash, slash_eq]
      exact Text.fields_append '/' base.text inner.text
  | true =>
      obtain ⟨front, text⟩ := exists_of_endsInSlash slash
      have ending := Text.fields_append '/' front ""
      have empty : Text.fields '/' "" = [""] := rfl
      rw [String.append_empty, ← text, empty] at ending
      have split := Text.fields_append '/' front inner.text
      rw [← text] at split
      rw [join_of_endsInSlash relative written slash]
      simp [pieces, split, ending]

theorem body_join
    {base inner : Path} (relative : inner.isAbsolute = false) (written : base.text ≠ "") :
    (base.join inner).body = base.core ++ inner.pieces := by
  have joined := pieces_join relative written
  have kind := isAbsolute_join relative written
  cases absolute : base.isAbsolute with
  | false =>
      rw [absolute] at kind
      rw [body_of_relative kind, joined, core, body_of_relative absolute]
  | true =>
      rw [absolute] at kind
      have nonempty := body_ne_nil base
      rw [pieces_of_isAbsolute kind, pieces_of_isAbsolute absolute,
        List.dropLast_cons_of_ne_nil nonempty] at joined
      cases slash : base.endsInSlash with
      | false =>
          simpa [slash, core] using joined
      | true =>
          simpa [slash, core] using joined

end Path

end ClojureBuild
