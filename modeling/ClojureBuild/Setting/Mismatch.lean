import ClojureBuild.Setting
import ClojureBuild.Text.Quoted

/-!
# Settings of the wrong shape

What is wrong with a setting that cannot be read as the value it should be, and the message that
says so.
-/

namespace ClojureBuild

/-- The format of a configuration document. -/
inductive DocumentFormat where
  | toml
  | json
  deriving DecidableEq, Repr

namespace Setting

/-- What a setting is, as messages call it. -/
def describe (format : DocumentFormat) : Setting → String
  | .null => "null"
  | .boolean _ value => "boolean `" ++ (if value then "true" else "false") ++ "`"
  | .integer _ value => "integer `" ++ toString value ++ "`"
  | .decimal _ value =>
      let style :=
        match format with
        | .toml => Binary64.plainStyle
        | .json => Binary64.shortStyle
      "floating point `" ++ value.display style ++ "`"
  | .text _ value => "string " ++ Text.quoted value
  | .moment _ => "map"
  | .sequence _ _ => "sequence"
  | .tables _ _ => "sequence"
  | .table _ _ _ => "map"

/-- The kind of a setting that is no table. -/
def kindName : Setting → String
  | .boolean _ _ => "boolean"
  | .integer _ _ => "integer"
  | .decimal _ _ => "float"
  | .text _ _ => "string"
  | .moment _ => "datetime"
  | .sequence _ _ => "array"
  | .tables _ _ => "array of tables"
  | .table _ _ _ => "table"
  | .null => "none"

end Setting

/-- What a setting should have been. -/
inductive Expectation where
  | text
  | path
  | boolean
  | sequence
  | nothing
  | textOrMapping
  | record (name : String)
  deriving DecidableEq, Repr

namespace Expectation

/-- What a setting should have been, as messages call it. -/
def describe : Expectation → String
  | .text => "a string"
  | .path => "path string"
  | .boolean => "a boolean"
  | .sequence => "a sequence"
  | .nothing => "unit"
  | .textOrMapping => "string or map"
  | .record name => "struct " ++ name

end Expectation

/-- What is wrong with a setting. -/
inductive Mismatch where
  | wrongType (found : String) (expected : Expectation)
  | notSingleField
  | surplusElements (count : Nat)
  | unknownChoice (given : String) (choices : List String)
  | noFieldForChoice
  | manyFieldsForChoice
  | neitherTextNorTable
  | notEmptyTable (found : String)
  | fieldsInEmptyTable
  | elementsInEmptyArray
  deriving DecidableEq, Repr

namespace Mismatch

/-- A name between backticks. -/
def ticked (name : String) : String :=
  "`" ++ name ++ "`"

/-- The choices that there are. -/
def describeChoices : List String → String
  | [] => "there are no variants"
  | [only] => "expected " ++ ticked only
  | [first, second] => "expected " ++ ticked first ++ " or " ++ ticked second
  | choices => "expected one of " ++ Text.joinWith ", " (choices.map ticked)

/-- The message about a mismatch. -/
def message : Mismatch → String
  | .wrongType found expected => "invalid type: " ++ found ++ ", expected " ++ expected.describe
  | .notSingleField => "invalid value: map, expected map with a single key"
  | .surplusElements count =>
      "invalid length " ++ toString count ++ ", expected fewer elements in array"
  | .unknownChoice given choices =>
      "unknown variant " ++ ticked given ++ ", " ++ describeChoices choices
  | .noFieldForChoice => "wanted exactly 1 element, found 0 elements"
  | .manyFieldsForChoice => "wanted exactly 1 element, more than 1 element"
  | .neitherTextNorTable => "wanted string or table"
  | .notEmptyTable found => "expected table, found " ++ found
  | .fieldsInEmptyTable => "expected empty table"
  | .elementsInEmptyArray => "expected empty array"

end Mismatch

/-- A mismatch, and where in the document it is. -/
structure Misfit where
  mismatch : Mismatch
  place : Option Extent
  deriving DecidableEq, Repr

namespace Misfit

/-- The misfit, at the given place if it has none yet. -/
def placedAt (misfit : Misfit) (place : Option Extent) : Misfit :=
  { misfit with place := misfit.place <|> place }

end Misfit

end ClojureBuild
