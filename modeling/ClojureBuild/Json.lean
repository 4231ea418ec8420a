import ClojureBuild.Decimal

/-!
# JSON values

The fields of an object are kept in ascending order of their names, each name once.
-/

namespace ClojureBuild

/-- A JSON value. -/
inductive Json where
  | null
  | boolean (value : Bool)
  | integer (value : Int)
  | decimal (value : Decimal)
  | text (value : String)
  | array (elements : List Json)
  | object (fields : List (String × Json))
  deriving Inhabited

namespace Json

/-- Set a field among fields in ascending order of their names. -/
def insertField (name : String) (value : Json) : List (String × Json) → List (String × Json)
  | [] => [(name, value)]
  | (other, held) :: rest =>
      if name = other then (name, value) :: rest
      else if name < other then (name, value) :: (other, held) :: rest
      else (other, held) :: insertField name value rest

/-- The object with the given fields, the last one of a name counting. -/
def ofFields (fields : List (String × Json)) : Json :=
  .object (fields.foldl (fun sorted field => insertField field.1 field.2 sorted) [])

/-- The array of texts. -/
def ofTexts (texts : List String) : Json :=
  .array (texts.map .text)

/-- A text, or null. -/
def ofText? (text : Option String) : Json :=
  (text.map Json.text).getD .null

/-- A field of an object. -/
def field? (value : Json) (name : String) : Option Json :=
  match value with
  | .object fields => fields.lookup name
  | _ => none

end Json

end ClojureBuild
