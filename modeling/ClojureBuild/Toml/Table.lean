import ClojureBuild.Setting

/-!
# Tables

A table is built by adding one value after the other under a path of keys.  Tables on the way that
do not exist yet are implied by the path; of a list of tables the last one is meant.  A table may
be defined only once: by a header, by braces, or bit by bit by dotted keys.
-/

namespace ClojureBuild.Toml

/-- The fields of a table, in order. -/
abbrev Fields := List (Key × Setting)

namespace Fields

/-- The value under a name. -/
def find? (name : String) : Fields → Option Setting
  | [] => none
  | (key, value) :: rest => if key.name = name then some value else find? name rest

/-- Replace the value under a name. -/
def replace (name : String) (value : Setting) : Fields → Fields
  | [] => []
  | (key, held) :: rest =>
      if key.name = name then (key, value) :: rest else (key, held) :: replace name value rest

/-- The fields without the one of a name. -/
def erase (name : String) (fields : Fields) : Fields :=
  fields.filter fun field => field.1.name ≠ name

/-- Add a field at the end, unless the name is taken. -/
def add? (key : Key) (value : Setting) (fields : Fields) : Option Fields :=
  match fields.find? key.name with
  | some _ => none
  | none => some (fields ++ [(key, value)])

end Fields

variable {α : Type}

/-- Whether a path may lead through a table: dotted keys lead neither into a table with a header of
its own nor into one between braces, headers lead anywhere but into the latter. -/
def admits (dottedKeys : Bool) : TableForm → Bool
  | .closed => false
  | .headed => !dottedKeys
  | .implied => true
  | .dotted => true

/-- Change the table that a path leads to, and take something from it. -/
def changeAt (dottedKeys : Bool) (change : TableForm → Fields → Option (α × Fields)) :
    List Key → TableForm → Fields → Option (α × Fields)
  | [], form, fields => change form fields
  | key :: path, _, fields =>
      match fields.find? key.name with
      | none => do
          let form := if dottedKeys then TableForm.dotted else TableForm.implied
          let (taken, inner) ← changeAt dottedKeys change path form []
          return (taken, fields ++ [(key, .table none form inner)])
      | some (.table place form inner) =>
          if admits dottedKeys form then do
            let (taken, inner) ← changeAt dottedKeys change path form inner
            return (taken, fields.replace key.name (.table place form inner))
          else
            none
      | some (.tables place elements) =>
          match elements.getLast? with
          | some (.table lastPlace form inner) => do
              let (taken, inner) ← changeAt dottedKeys change path form inner
              let elements := elements.dropLast ++ [.table lastPlace form inner]
              return (taken, fields.replace key.name (.tables place elements))
          | _ => none
      | some _ => none

/-- A path as the keys that lead to a table and the key of a field in it. -/
def splitPath? : List Key → Option (List Key × Key)
  | [] => none
  | [key] => some ([], key)
  | key :: next :: path => (splitPath? (next :: path)).map fun (front, last) => (key :: front, last)

/-- Add a value under dotted keys.  The table that they lead to has to be made of dotted keys
itself, unless it is the one that the keys start from. -/
def assign? (path : List Key) (value : Setting) (fields : Fields) : Option Fields := do
  let (front, key) ← splitPath? path
  let add := fun (form : TableForm) (inner : Fields) =>
    if front.isEmpty || form = .dotted then
      (inner.add? key value).map fun changed => ((), changed)
    else
      none
  let ((), changed) ← changeAt true add front .headed fields
  return changed

/-- Take the fields that headers have implied out of the table at a path. -/
def takeImplied? (path : List Key) (fields : Fields) : Option (Fields × Fields) := do
  let (front, key) ← splitPath? path
  let take := fun (_ : TableForm) (inner : Fields) =>
    match inner.find? key.name with
    | none => some ([], inner)
    | some (.table _ .implied taken) => some (taken, inner.erase key.name)
    | some _ => none
  changeAt false take front .headed fields

/-- Add a finished table at the path of its header. -/
def addTable? (path : List Key) (table : Setting) (fields : Fields) : Option Fields := do
  let (front, key) ← splitPath? path
  let add := fun (_ : TableForm) (inner : Fields) =>
    (inner.add? key table).map fun changed => ((), changed)
  let ((), changed) ← changeAt false add front .headed fields
  return changed

/-- The extent from the start of one to the end of another. -/
def spanning (first last : Option Extent) : Option Extent :=
  match first, last with
  | some first, some last => some ⟨first.atStart, last.atEnd⟩
  | _, _ => none

/-- Add an element to a list of tables, a new list if there is none. -/
def addElement? (path : List Key) (table : Setting) (fields : Fields) : Option Fields := do
  let (front, key) ← splitPath? path
  let add := fun (_ : TableForm) (inner : Fields) =>
    match inner.find? key.name with
    | none => some ((), inner ++ [(key, .tables table.place [table])])
    | some (.tables _ elements) =>
        let place := spanning ((elements.head?.getD table).place) table.place
        some ((), inner.replace key.name (.tables place (elements ++ [table])))
    | some _ => none
  let ((), changed) ← changeAt false add front .headed fields
  return changed

/-- Whether the path of a header names a list of tables or nothing yet. -/
def admitsElement (path : List Key) (fields : Fields) : Bool :=
  (addElement? path (.table none .headed []) fields).isSome

/-- The fields of a table between braces. -/
def ofAssignments? (assignments : List (List Key × Setting)) : Option Fields :=
  assignments.foldlM (fun fields assignment => assign? assignment.1 assignment.2 fields) []

end ClojureBuild.Toml
