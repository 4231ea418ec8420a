import ClojureBuild.Setting.Reading

/-!
# Settings that are read back

Texts, truth values, lists, optional values and choices are read back from what is written for them,
and so is a record whose fields are read back as its members.
-/

namespace ClojureBuild.Setting

variable {α ρ : Type}

/-- A value is read back from a JSON value. -/
def ReadsBack (read : DocumentFormat → Setting → Except Misfit α) (written : Json) (value : α) :
    Prop :=
  read .json (ofJson written) = .ok value

/-! ## Plain values -/

theorem readsBack_text (text : String) : ReadsBack readText (.text text) text :=
  rfl

theorem readsBack_boolean (value : Bool) : ReadsBack readBoolean (.boolean value) value :=
  rfl

theorem readOptional_of_ne_null {readSome : DocumentFormat → Setting → Except Misfit α}
    {setting : Setting} (notNull : setting ≠ .null) (format : DocumentFormat) :
    readOptional readSome format setting = (readSome format setting).map some := by
  cases setting with
  | null =>
      exact absurd rfl notNull
  | _ =>
      rfl

theorem ofJson_eq_null_iff (value : Json) : ofJson value = .null ↔ value = .null := by
  cases value <;> simp [ofJson]

/-- An absent value is written as null, so no value may be written so that is there. -/
theorem readsBack_optional {readSome : DocumentFormat → Setting → Except Misfit α}
    {writeSome : α → Json} (notNull : ∀ value, writeSome value ≠ .null) {value : Option α}
    (each : ∀ held ∈ value, ReadsBack readSome (writeSome held) held) :
    ReadsBack (readOptional readSome) ((value.map writeSome).getD .null) value := by
  cases value with
  | none =>
      rfl
  | some held =>
      have present : ofJson (writeSome held) ≠ .null :=
        mt (ofJson_eq_null_iff _).mp (notNull held)
      have readsHeld : readSome .json (ofJson (writeSome held)) = .ok held := each held rfl
      rw [ReadsBack, Option.map_some, Option.getD_some, readOptional_of_ne_null present, readsHeld]
      rfl

theorem readEach_ofElements {readOne : DocumentFormat → Setting → Except Misfit α}
    {writeOne : α → Json} {values : List α}
    (each : ∀ value ∈ values, ReadsBack readOne (writeOne value) value) :
    readEach (readOne .json) (ofJson.ofElements (values.map writeOne)) = .ok values := by
  induction values with
  | nil =>
      rfl
  | cons value rest inductionHypothesis =>
      rw [List.forall_mem_cons] at each
      have readsValue : readOne .json (ofJson (writeOne value)) = .ok value := each.1
      rw [List.map_cons, ofJson.ofElements, readEach, readsValue, inductionHypothesis each.2]
      rfl

theorem readsBack_list {readOne : DocumentFormat → Setting → Except Misfit α}
    {writeOne : α → Json} {values : List α}
    (each : ∀ value ∈ values, ReadsBack readOne (writeOne value) value) :
    ReadsBack (readList readOne) (.array (values.map writeOne)) values :=
  readEach_ofElements each

/-- The choices are read back from their names, as long as no two of them share one. -/
theorem readsBack_choice {choices : List (String × α)} {name : α → String}
    (known : ∀ choice, choices.lookup (name choice) = some choice) (choice : α) :
    ReadsBack (readChoice choices) (.text (name choice)) choice := by
  rw [ReadsBack, ofJson, readChoice, choose, known]

/-! ## Records -/

section Records

variable {members : List (Member ρ)} {record next final : ρ} {name : String} {value : Json}
variable {fields : List (String × Json)}

/-- The fields of an object lead from one record to another, each through its member. -/
inductive Replays (members : List (Member ρ)) : List (String × Json) → ρ → ρ → Prop where
  | done (record : ρ) : Replays members [] record record
  | field {member : Member ρ} {name : String} {value : Json} {fields : List (String × Json)}
      {record next final : ρ}
      (found : (members.find? fun candidate => candidate.name == name) = some member)
      (replaced : member.replace .json (ofJson value) record = .ok ⟨next, []⟩)
      (others : Replays members fields next final) :
      Replays members ((name, value) :: fields) record final

theorem Replays.plain {read : DocumentFormat → Setting → Except Misfit α} {set : α → ρ → ρ}
    {content : α}
    (found : (members.find? fun candidate => candidate.name == name) =
      some (Member.plain name read set))
    (readsContent : ReadsBack read value content)
    (others : Replays members fields (set content record) final) :
    Replays members ((name, value) :: fields) record final := by
  refine .field found ?_ others
  rw [ReadsBack] at readsContent
  dsimp only [Member.plain]
  rw [readsContent]
  rfl

theorem Replays.nested {read : DocumentFormat → Setting → Except Misfit (Reading α)}
    {set : α → ρ → ρ} {content : α}
    (found : (members.find? fun candidate => candidate.name == name) =
      some (Member.nested name read set))
    (readsContent : ReadsBack read value ⟨content, []⟩)
    (others : Replays members fields (set content record) final) :
    Replays members ((name, value) :: fields) record final := by
  refine .field found ?_ others
  rw [ReadsBack] at readsContent
  dsimp only [Member.nested]
  rw [readsContent]
  rfl

theorem Replays.readFields (replays : Replays members fields record final) :
    readFields .json members (ofJson.ofFields fields) record = .ok ⟨final, []⟩ := by
  induction replays with
  | done record =>
      rfl
  | field found replaced _ inductionHypothesis =>
      rw [ofJson.ofFields, Setting.readFields]
      dsimp only
      rw [found]
      dsimp only
      rw [replaced]
      dsimp only
      rw [inductionHypothesis]
      rfl

/-- A record is read back if the fields that are written for it lead to it from the defaults. -/
theorem readsBack_record {written : Json} {recordName : String} {start : ρ}
    (isObject : written = .object fields) (replays : Replays members fields start record) :
    ReadsBack (readRecord recordName members start) written ⟨record, []⟩ := by
  rw [isObject]
  exact replays.readFields

end Records

end ClojureBuild.Setting
