import ClojureBuild.Json

/-!
# Settings

A setting is a value in a configuration document.  A document written by hand remembers where each
of its values and keys stands, so that a message can point at it; a JSON value has no place.
-/

namespace ClojureBuild

/-- A part of a text, by the number of letters still to come at its start and at its end. -/
structure Extent where
  atStart : Nat
  atEnd : Nat
  deriving DecidableEq, Repr

/-- The key of a field, and where it stands. -/
structure Key where
  name : String
  place : Option Extent
  deriving DecidableEq, Repr

/-- How a table came to be, which decides what may still be added to it. -/
inductive TableForm where
  /-- Written between braces: complete. -/
  | closed
  /-- Opened by a header of its own. -/
  | headed
  /-- Implied by the header of a table inside it. -/
  | implied
  /-- Implied by a dotted key. -/
  | dotted
  deriving DecidableEq, Repr

/-- A value in a configuration document. -/
inductive Setting where
  | null
  | boolean (place : Option Extent) (value : Bool)
  | integer (place : Option Extent) (value : Int)
  | decimal (place : Option Extent) (value : Binary64)
  | text (place : Option Extent) (value : String)
  | moment (place : Option Extent)
  | sequence (place : Option Extent) (elements : List Setting)
  | tables (place : Option Extent) (elements : List Setting)
  | table (place : Option Extent) (form : TableForm) (fields : List (Key × Setting))
  deriving Inhabited

namespace Setting

/-- Where a setting stands. -/
def place : Setting → Option Extent
  | .null => none
  | .boolean place _ => place
  | .integer place _ => place
  | .decimal place _ => place
  | .text place _ => place
  | .moment place => place
  | .sequence place _ => place
  | .tables place _ => place
  | .table place _ _ => place

/-- The setting that a JSON value stands for. -/
def ofJson : Json → Setting
  | .null => .null
  | .boolean value => .boolean none value
  | .integer value => .integer none value
  | .decimal value => .decimal none value.nearest
  | .text value => .text none value
  | .array elements => .sequence none (ofElements elements)
  | .object fields => .table none .closed (ofFields fields)
where
  /-- The settings of the elements of an array. -/
  ofElements : List Json → List Setting
    | [] => []
    | element :: rest => ofJson element :: ofElements rest
  /-- The settings of the fields of an object. -/
  ofFields : List (String × Json) → List (Key × Setting)
    | [] => []
    | (name, value) :: rest => (⟨name, none⟩, ofJson value) :: ofFields rest

end Setting

end ClojureBuild
