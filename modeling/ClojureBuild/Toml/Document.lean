import ClojureBuild.Toml.Value

/-!
# Documents

A document is a list of statements: assignments, headers that open a table, and headers that open
another element of a list of tables.  The assignments after a header belong to its table, which is
added to the document once it is complete.
-/

namespace ClojureBuild.Toml

/-- A statement of a document. -/
inductive Statement where
  | assignment (path : List Key) (value : Setting)
  | header (path : List Key) (place : Extent)
  | elementHeader (path : List Key) (place : Extent)

/-! ## Reading statements -/

/-- Read a statement that is not followed by anything else on its line. -/
def readStatement : Reader Statement := fun letters => do
  match letters with
  | '[' :: '[' :: rest =>
      match ← readPath rest with
      | (path, ']' :: ']' :: left) =>
          return (.elementHeader path (extentBetween letters left), ← endOfLine? left)
      | _ => none
  | '[' :: rest =>
      match ← readPath rest with
      | (path, ']' :: left) => return (.header path (extentBetween letters left), ← endOfLine? left)
      | _ => none
  | _ =>
      let ((path, value), left) ← readAssignment readValue letters
      return (.assignment path value, ← endOfLine? left)

/-- Read statements up to the end of the text. -/
def readStatements : Nat → List Char → Option (List Statement)
  | 0, _ => none
  | fuel + 1, letters =>
      match skipGaps letters with
      | [] => some []
      | start => do
          let (statement, rest) ← readStatement start
          let statements ← readStatements fuel rest
          return statement :: statements

/-! ## Putting tables together -/

/-- Where the assignments after a header go. -/
inductive Section where
  | top
  | table (path : List Key) (place : Extent)
  | element (path : List Key) (place : Extent)

/-- A document under construction: the tables finished so far, and the one being filled. -/
structure Draft where
  finished : Fields
  opened : Section
  fields : Fields

namespace Draft

/-- Nothing yet. -/
def empty : Draft :=
  ⟨[], .top, []⟩

/-- The fields of the document once the open table is complete. -/
def close? (draft : Draft) : Option Fields :=
  match draft.opened with
  | .top => some draft.fields
  | .table path place => addTable? path (.table (some place) .headed draft.fields) draft.finished
  | .element path place =>
      addElement? path (.table (some place) .headed draft.fields) draft.finished

/-- The place of the open table, up to the end of a value in it. -/
def reach (opened : Section) (value : Setting) : Section :=
  match opened, value.place with
  | .table path place, some extent => .table path ⟨place.atStart, extent.atEnd⟩
  | .element path place, some extent => .element path ⟨place.atStart, extent.atEnd⟩
  | unchanged, _ => unchanged

/-- The draft after one more statement. -/
def add? (draft : Draft) : Statement → Option Draft
  | .assignment path value => do
      let fields ← assign? path value draft.fields
      return { draft with opened := reach draft.opened value, fields := fields }
  | .header path place => do
      let finished ← draft.close?
      let (implied, others) ← takeImplied? path finished
      return ⟨others, .table path place, implied⟩
  | .elementHeader path place => do
      let finished ← draft.close?
      if admitsElement path finished then
        return ⟨finished, .element path place, []⟩
      else
        none

end Draft

/-- The fields of the document with the given statements. -/
def ofStatements? (statements : List Statement) : Option Fields := do
  let draft ← statements.foldlM Draft.add? Draft.empty
  draft.close?

/-- The letters of a text after a mark of its byte order. -/
def withoutOrderMark : List Char → List Char
  | '\uFEFF' :: rest => rest
  | letters => letters

/-- Read a text as a document. -/
def read? (text : String) : Option Setting := do
  let statements ← readStatements (text.length + 1) (withoutOrderMark text.toList)
  let fields ← ofStatements? statements
  return .table none .headed fields

end ClojureBuild.Toml
