import ClojureBuild.Setting.Reading

/-!
# What is kept while a record is read

A record starts out with its defaults and its members are replaced one after the other.  So what
holds of the defaults, and goes on to hold when a member is replaced, holds of the record that is read.
-/

namespace ClojureBuild.Setting

variable {α ρ : Type} {holds : ρ → Prop} {members : List (Member ρ)} {format : DocumentFormat}

/-! ## Values -/

/-- What is read has a property. -/
def Yields (read : DocumentFormat → Setting → Except Misfit α) (good : α → Prop) : Prop :=
  ∀ format setting value, read format setting = .ok value → good value

theorem yields_optional {readSome : DocumentFormat → Setting → Except Misfit α} {good : α → Prop}
    (yields : Yields readSome good) :
    Yields (readOptional readSome) fun value => ∀ held ∈ value, good held := by
  intro format setting value read held isHeld
  have some (accepted : (readSome format setting).map some = .ok value) : good held := by
    cases found : readSome format setting with
    | error misfit =>
        rw [found] at accepted
        cases accepted
    | ok other =>
        rw [found] at accepted
        cases accepted
        cases isHeld
        exact yields format setting held found
  cases setting with
  | null =>
      cases read
      cases isHeld
  | _ =>
      exact some read

theorem forall_mem_of_readEach {readOne : Setting → Except Misfit α} {good : α → Prop}
    (each : ∀ setting value, readOne setting = .ok value → good value) {elements : List Setting}
    {values : List α} (read : readEach readOne elements = .ok values) :
    ∀ value ∈ values, good value := by
  induction elements generalizing values with
  | nil =>
      cases read
      exact List.forall_mem_nil _
  | cons setting rest inductionHypothesis =>
      rw [readEach] at read
      cases first : readOne setting with
      | error misfit =>
          rw [first] at read
          cases read
      | ok value =>
          rw [first] at read
          cases later : readEach readOne rest with
          | error misfit =>
              rw [later] at read
              cases read
          | ok others =>
              rw [later] at read
              cases read
              exact List.forall_mem_cons.2 ⟨each setting value first, inductionHypothesis later⟩

theorem yields_list {readOne : DocumentFormat → Setting → Except Misfit α} {good : α → Prop}
    (yields : Yields readOne good) :
    Yields (readList readOne) fun values => ∀ value ∈ values, good value := by
  intro format setting values read
  cases setting with
  | sequence place elements =>
      exact forall_mem_of_readEach (yields format) read
  | tables place elements =>
      exact forall_mem_of_readEach (yields format) read
  | _ =>
      cases read

/-! ## Records -/

/-- Replacing a member keeps a property of a record. -/
def KeptBy (holds : ρ → Prop) (member : Member ρ) : Prop :=
  ∀ format setting record reading,
    member.replace format setting record = .ok reading → holds record → holds reading.value

theorem keptBy_plain {name : String} {read : DocumentFormat → Setting → Except Misfit α}
    {set : α → ρ → ρ}
    (keeps : ∀ format setting value record, read format setting = .ok value → holds record →
      holds (set value record)) :
    KeptBy holds (.plain name read set) := by
  intro format setting record reading replaced held
  cases found : read format setting with
  | error misfit =>
      simp only [Member.plain, found] at replaced
      cases replaced
  | ok value =>
      simp only [Member.plain, found] at replaced
      cases replaced
      exact keeps format setting value record found held

theorem keptBy_nested {name : String} {read : DocumentFormat → Setting → Except Misfit (Reading α)}
    {set : α → ρ → ρ}
    (keeps : ∀ format setting inner record, read format setting = .ok inner → holds record →
      holds (set inner.value record)) :
    KeptBy holds (.nested name read set) := by
  intro format setting record reading replaced held
  cases found : read format setting with
  | error misfit =>
      simp only [Member.nested, found] at replaced
      cases replaced
  | ok inner =>
      simp only [Member.nested, found] at replaced
      cases replaced
      exact keeps format setting inner record found held

theorem holds_of_readFields (kept : ∀ member ∈ members, KeptBy holds member)
    {fields : List (Key × Setting)} {record : ρ} {reading : Reading ρ}
    (read : readFields format members fields record = .ok reading) (held : holds record) :
    holds reading.value := by
  induction fields generalizing record reading with
  | nil =>
      cases read
      exact held
  | cons field rest inductionHypothesis =>
      obtain ⟨key, setting⟩ := field
      rw [readFields] at read
      split at read
      · next found isFound =>
          split at read
          · next replaced isReplaced =>
              have next := kept found (List.mem_of_find?_eq_some isFound) _ _ _ _ isReplaced held
              cases later : readFields format members rest replaced.value with
              | error misfit =>
                  rw [later] at read
                  cases read
              | ok others =>
                  rw [later] at read
                  cases read
                  have rest : holds others.value := inductionHypothesis later next
                  exact rest
          · cases read
      · cases later : readFields format members rest record with
        | error misfit =>
            rw [later] at read
            cases read
        | ok others =>
            rw [later] at read
            cases read
            have rest : holds others.value := inductionHypothesis later held
            exact rest

theorem holds_of_readPositions (kept : ∀ member ∈ members, KeptBy holds member)
    {elements : List Setting} {record : ρ} {reading : Reading ρ}
    (read : readPositions format members elements record = .ok reading) (held : holds record) :
    holds reading.value := by
  induction members generalizing elements record reading with
  | nil =>
      cases read
      exact held
  | cons next others inductionHypothesis =>
      cases elements with
      | nil =>
          cases read
          exact held
      | cons setting rest =>
          rw [List.forall_mem_cons] at kept
          rw [readPositions] at read
          cases replaced : next.replace format setting record with
          | error misfit =>
              rw [replaced] at read
              cases read
          | ok first =>
              rw [replaced] at read
              cases later : readPositions format others rest first.value with
              | error misfit =>
                  simp only [later, bind, Except.bind] at read
                  cases read
              | ok final =>
                  simp only [later, bind, Except.bind] at read
                  cases read
                  have rest : holds final.value :=
                    inductionHypothesis kept.2 later (kept.1 _ _ _ _ replaced held)
                  exact rest

theorem holds_of_readSequence (kept : ∀ member ∈ members, KeptBy holds member)
    {elements : List Setting} {start : ρ} {reading : Reading ρ}
    (read : readSequence format members start elements = .ok reading) (held : holds start) :
    holds reading.value := by
  rw [readSequence] at read
  cases positions : readPositions format members elements start with
  | error misfit =>
      rw [positions] at read
      cases read
  | ok found =>
      rw [positions] at read
      simp only [bind, Except.bind] at read
      split at read
      · cases read
      · cases read
        exact holds_of_readPositions kept positions held

/-- What holds of the defaults of a record and is kept by its members holds of what is read. -/
theorem yields_record {recordName : String} {start : ρ} (held : holds start)
    (kept : ∀ member ∈ members, KeptBy holds member) :
    Yields (readRecord recordName members start) fun reading => holds reading.value := by
  intro format setting reading read
  cases setting with
  | table place form fields =>
      exact holds_of_readFields kept read held
  | sequence place elements =>
      exact holds_of_readSequence kept read held
  | tables place elements =>
      exact holds_of_readSequence kept read held
  | moment place =>
      cases read
      exact held
  | _ =>
      cases read

end ClojureBuild.Setting
