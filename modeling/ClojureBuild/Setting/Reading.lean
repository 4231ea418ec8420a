import ClojureBuild.Setting.Mismatch

/-!
# Reading settings

A setting is read as a text, a list, a choice or a record.  A record starts out with its defaults;
every field of the document replaces one of its members, in document order, and a key that names no
member is reported and otherwise ignored.  A record may also be written as the list of its members.
-/

namespace ClojureBuild

/-- A value that was read, and the keys met on the way that name nothing. -/
structure Reading (α : Type) where
  value : α
  unknownKeys : List String
  deriving DecidableEq, Repr

namespace Setting

variable {α ρ : Type}

/-- Refuse a setting. -/
def refuse (setting : Setting) (mismatch : Mismatch) : Except Misfit α :=
  .error ⟨mismatch, setting.place⟩

/-- Refuse a setting that is not of the expected type. -/
def refuseType (format : DocumentFormat) (expected : Expectation) (setting : Setting) :
    Except Misfit α :=
  setting.refuse (.wrongType (setting.describe format) expected)

/-! ## Plain values -/

/-- Read a text that stands for something else. -/
def readTextAs (expected : Expectation) (format : DocumentFormat) :
    Setting → Except Misfit String
  | .text _ value => .ok value
  | other => refuseType format expected other

/-- Read a text. -/
def readText : DocumentFormat → Setting → Except Misfit String :=
  readTextAs .text

/-- Read a text that names a path. -/
def readPathText : DocumentFormat → Setting → Except Misfit String :=
  readTextAs .path

/-- Read a truth value. -/
def readBoolean (format : DocumentFormat) : Setting → Except Misfit Bool
  | .boolean _ value => .ok value
  | other => refuseType format .boolean other

/-- Read a value that may be absent. -/
def readOptional (readSome : DocumentFormat → Setting → Except Misfit α)
    (format : DocumentFormat) : Setting → Except Misfit (Option α)
  | .null => .ok none
  | other => (readSome format other).map some

/-- Read settings one after the other. -/
def readEach (readOne : Setting → Except Misfit α) : List Setting → Except Misfit (List α)
  | [] => .ok []
  | setting :: rest => do
      let first ← readOne setting
      let others ← readEach readOne rest
      return first :: others

/-- Read a list. -/
def readList (readOne : DocumentFormat → Setting → Except Misfit α) (format : DocumentFormat) :
    Setting → Except Misfit (List α)
  | .sequence _ elements => readEach (readOne format) elements
  | .tables _ elements => readEach (readOne format) elements
  | other => refuseType format .sequence other

/-! ## Choices -/

/-- The choice with a name. -/
def choose (choices : List (String × α)) (place : Option Extent) (name : String) :
    Except Misfit α :=
  match choices.lookup name with
  | some choice => .ok choice
  | none => .error ⟨.unknownChoice name (choices.map Prod.fst), place⟩

/-- Accept the value beside the name of a choice, which has to be empty. -/
def checkEmpty (format : DocumentFormat) (setting : Setting) : Except Misfit Unit :=
  match format, setting with
  | .json, .null => .ok ()
  | .json, other => refuseType .json .nothing other
  | .toml, .tables _ elements =>
      if elements.isEmpty then .ok () else setting.refuse .elementsInEmptyArray
  | .toml, .sequence _ elements =>
      if elements.isEmpty then .ok () else setting.refuse .fieldsInEmptyTable
  | .toml, .table _ _ fields =>
      if fields.isEmpty then .ok () else setting.refuse .fieldsInEmptyTable
  | .toml, other => other.refuse (.notEmptyTable other.kindName)

/-- Refuse a table that does not have exactly one field. -/
def refuseFieldCount (format : DocumentFormat) (setting : Setting)
    (fields : List (Key × Setting)) : Except Misfit α :=
  setting.refuse <|
    match format with
    | .json => .notSingleField
    | .toml => if fields.isEmpty then .noFieldForChoice else .manyFieldsForChoice

/-- Read a choice: its name, or a table whose only field has that name and an empty value. -/
def readChoice (choices : List (String × α)) (format : DocumentFormat) (setting : Setting) :
    Except Misfit α :=
  match setting with
  | .text place name => choose choices place name
  | .table _ _ [(key, value)] => do
      let choice ← choose choices key.place key.name
      checkEmpty format value
      return choice
  | .table _ _ fields => refuseFieldCount format setting fields
  | other =>
      match format with
      | .json => refuseType .json .textOrMapping other
      | .toml => other.refuse .neitherTextNorTable

end Setting

/-! ## Records -/

/-- A member of a record: its name, and how a setting replaces it. -/
structure Member (ρ : Type) where
  name : String
  replace : DocumentFormat → Setting → ρ → Except Misfit (Reading ρ)

namespace Member

variable {α ρ : Type}

/-- A member with a plain value. -/
def plain (name : String) (read : DocumentFormat → Setting → Except Misfit α)
    (set : α → ρ → ρ) : Member ρ where
  name := name
  replace := fun format setting record => do
    let value ← read format setting
    return ⟨set value record, []⟩

/-- A member that is a record itself. -/
def nested (name : String) (read : DocumentFormat → Setting → Except Misfit (Reading α))
    (set : α → ρ → ρ) : Member ρ where
  name := name
  replace := fun format setting record => do
    let reading ← read format setting
    return ⟨set reading.value record, reading.unknownKeys⟩

end Member

namespace Setting

variable {α ρ : Type}

/-- The key under which a record sees the text of a moment. -/
def momentKey : String := "$__toml_private_datetime"

/-- Read the fields of a table into a record. -/
def readFields (format : DocumentFormat) (members : List (Member ρ)) :
    List (Key × Setting) → ρ → Except Misfit (Reading ρ)
  | [], record => .ok ⟨record, []⟩
  | (key, setting) :: rest, record =>
      match members.find? fun candidate => candidate.name == key.name with
      | some found =>
          match found.replace format setting record with
          | .ok reading => do
              let later ← readFields format members rest reading.value
              return ⟨later.value, reading.unknownKeys ++ later.unknownKeys⟩
          | .error misfit => .error (misfit.placedAt (setting.place <|> key.place))
      | none => do
          let later ← readFields format members rest record
          return ⟨later.value, key.name :: later.unknownKeys⟩

/-- Read the members of a record from a list. -/
def readPositions (format : DocumentFormat) :
    List (Member ρ) → List Setting → ρ → Except Misfit (Reading ρ)
  | next :: members, setting :: rest, record => do
      let reading ← next.replace format setting record
      let later ← readPositions format members rest reading.value
      return ⟨later.value, reading.unknownKeys ++ later.unknownKeys⟩
  | _, _, record => .ok ⟨record, []⟩

/-- Read a record from a list of its members: in JSON no element may be left over. -/
def readSequence (format : DocumentFormat) (members : List (Member ρ)) (start : ρ)
    (elements : List Setting) : Except Misfit (Reading ρ) := do
  let reading ← readPositions format members elements start
  if format = .json ∧ members.length < elements.length then
    .error ⟨.surplusElements elements.length, none⟩
  else
    return reading

/-- Read a record. -/
def readRecord (name : String) (members : List (Member ρ)) (start : ρ)
    (format : DocumentFormat) (setting : Setting) : Except Misfit (Reading ρ) :=
  match setting with
  | .table _ _ fields => readFields format members fields start
  | .sequence _ elements => readSequence format members start elements
  | .tables _ elements => readSequence format members start elements
  | .moment _ => .ok ⟨start, [momentKey]⟩
  | other => refuseType format (.record name) other

end Setting

end ClojureBuild
