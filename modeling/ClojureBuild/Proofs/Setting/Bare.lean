import ClojureBuild.Setting.Reading

/-!
# Settings without their places

What is read from a setting does not depend on where the setting and its parts stand, nor on how its
tables came to be.  Only the place in a misfit does.
-/

namespace ClojureBuild

variable {α ρ : Type} {format : DocumentFormat}

/-- The misfit without its place. -/
def Misfit.unplaced (misfit : Misfit) : Misfit :=
  ⟨misfit.mismatch, none⟩

namespace Setting

/-! ## Bare settings -/

/-- The setting without any places, with all its tables alike. -/
def bare : Setting → Setting
  | .null => .null
  | .boolean _ value => .boolean none value
  | .integer _ value => .integer none value
  | .decimal _ value => .decimal none value
  | .text _ value => .text none value
  | .moment _ => .moment none
  | .sequence _ elements => .sequence none (bareElements elements)
  | .tables _ elements => .tables none (bareElements elements)
  | .table _ _ fields => .table none .closed (bareFields fields)
where
  /-- The elements of a list without any places. -/
  bareElements : List Setting → List Setting
    | [] => []
    | element :: rest => bare element :: bareElements rest
  /-- The fields of a table without any places. -/
  bareFields : List (Key × Setting) → List (Key × Setting)
    | [] => []
    | (key, value) :: rest => (⟨key.name, none⟩, bare value) :: bareFields rest

theorem bareElements_eq_map (elements : List Setting) :
    bare.bareElements elements = elements.map bare := by
  induction elements with
  | nil =>
      rfl
  | cons element rest inductionHypothesis =>
      rw [bare.bareElements, inductionHypothesis, List.map_cons]

@[simp]
theorem place_bare (setting : Setting) : setting.bare.place = none := by
  cases setting <;> rfl

@[simp]
theorem describe_bare (format : DocumentFormat) (setting : Setting) :
    setting.bare.describe format = setting.describe format := by
  cases setting <;> rfl

/-! ## Plain values -/

/-- A reader gives the same for a bare setting, apart from the place of a misfit. -/
def ReadsBare (read : Setting → Except Misfit α) : Prop :=
  ∀ setting, read setting.bare = (read setting).mapError Misfit.unplaced

theorem mapError_ok (value : α) :
    (Except.ok value).mapError Misfit.unplaced = .ok value :=
  rfl

theorem mapError_bind {β : Type} (first : Except Misfit α) (next : α → Except Misfit β) :
    (first >>= next).mapError Misfit.unplaced =
      first.mapError Misfit.unplaced >>= fun value => (next value).mapError Misfit.unplaced := by
  cases first <;> rfl

theorem mapError_map {β : Type} (convert : α → β) (first : Except Misfit α) :
    (first.map convert).mapError Misfit.unplaced =
      (first.mapError Misfit.unplaced).map convert := by
  cases first <;> rfl

theorem refuse_bare (setting : Setting) (mismatch : Mismatch) :
    (setting.bare.refuse mismatch : Except Misfit α) =
      (setting.refuse mismatch).mapError Misfit.unplaced := by
  rw [refuse, place_bare]
  rfl

theorem refuseType_bare (format : DocumentFormat) (expected : Expectation) (setting : Setting) :
    (setting.bare.refuseType format expected : Except Misfit α) =
      (setting.refuseType format expected).mapError Misfit.unplaced := by
  rw [refuseType, describe_bare, refuse_bare]
  rfl

theorem readsBare_readTextAs (expected : Expectation) (format : DocumentFormat) :
    ReadsBare (readTextAs expected format) := by
  intro setting
  cases setting with
  | text place value =>
      rfl
  | _ =>
      exact refuseType_bare format expected _

theorem readsBare_readBoolean (format : DocumentFormat) : ReadsBare (readBoolean format) := by
  intro setting
  cases setting with
  | boolean place value =>
      rfl
  | _ =>
      exact refuseType_bare format .boolean _

theorem readsBare_readOptional {readSome : DocumentFormat → Setting → Except Misfit α}
    (reads : ∀ format, ReadsBare (readSome format)) (format : DocumentFormat) :
    ReadsBare (readOptional readSome format) := by
  intro setting
  cases setting with
  | null =>
      rfl
  | _ =>
      exact (congrArg (Except.map some) (reads format _)).trans (mapError_map some _).symm

theorem readEach_bareElements {readOne : Setting → Except Misfit α} (reads : ReadsBare readOne)
    (elements : List Setting) :
    readEach readOne (bare.bareElements elements) =
      (readEach readOne elements).mapError Misfit.unplaced := by
  induction elements with
  | nil =>
      rfl
  | cons element rest inductionHypothesis =>
      rw [bare.bareElements, readEach, readEach, reads, inductionHypothesis, mapError_bind]
      congr 1
      funext first
      rw [mapError_bind]
      rfl

theorem readsBare_readList {readOne : DocumentFormat → Setting → Except Misfit α}
    (reads : ∀ format, ReadsBare (readOne format)) (format : DocumentFormat) :
    ReadsBare (readList readOne format) := by
  intro setting
  cases setting with
  | sequence place elements =>
      exact readEach_bareElements (reads format) elements
  | tables place elements =>
      exact readEach_bareElements (reads format) elements
  | _ =>
      exact refuseType_bare format .sequence _

/-! ## Choices -/

theorem choose_unplaced (choices : List (String × α)) (place : Option Extent) (name : String) :
    choose choices none name = (choose choices place name).mapError Misfit.unplaced := by
  unfold choose
  cases choices.lookup name with
  | none =>
      rfl
  | some choice =>
      rfl

theorem readsBare_checkEmpty (format : DocumentFormat) : ReadsBare (checkEmpty format) := by
  intro setting
  cases format with
  | json =>
      cases setting with
      | null =>
          rfl
      | _ =>
          exact refuseType_bare .json .nothing _
  | toml =>
      cases setting with
      | tables place elements =>
          cases elements <;> rfl
      | sequence place elements =>
          cases elements <;> rfl
      | table place form fields =>
          cases fields <;> rfl
      | _ =>
          rfl

theorem readsBare_readChoice (choices : List (String × α)) (format : DocumentFormat) :
    ReadsBare (readChoice choices format) := by
  intro setting
  cases setting with
  | text place name =>
      exact choose_unplaced choices place name
  | table place form fields =>
      cases fields with
      | nil =>
          cases format <;> rfl
      | cons field rest =>
          cases rest with
          | nil =>
              obtain ⟨key, value⟩ := field
              rw [bare, bare.bareFields, bare.bareFields, readChoice, readChoice,
                choose_unplaced choices key.place, readsBare_checkEmpty, mapError_bind]
              congr 1
              funext choice
              rw [mapError_bind]
              rfl
          | cons next others =>
              cases format <;> rfl
  | _ =>
      cases format <;> rfl

/-! ## Records -/

/-- A member is replaced in the same way by a bare setting. -/
def MemberReadsBare (member : Member ρ) : Prop :=
  ∀ format record, ReadsBare fun setting => member.replace format setting record

theorem memberReadsBare_plain (name : String) {read : DocumentFormat → Setting → Except Misfit α}
    (reads : ∀ format, ReadsBare (read format)) (set : α → ρ → ρ) :
    MemberReadsBare (Member.plain name read set) := by
  intro format record setting
  dsimp only [Member.plain]
  rw [reads format, mapError_bind]
  rfl

theorem memberReadsBare_nested (name : String)
    {read : DocumentFormat → Setting → Except Misfit (Reading α)}
    (reads : ∀ format, ReadsBare (read format)) (set : α → ρ → ρ) :
    MemberReadsBare (Member.nested name read set) := by
  intro format record setting
  dsimp only [Member.nested]
  rw [reads format, mapError_bind]
  rfl

/-- Every member is replaced in the same way by a bare setting. -/
def MembersReadBare (members : List (Member ρ)) : Prop :=
  ∀ member ∈ members, MemberReadsBare member

variable {members : List (Member ρ)}

theorem MembersReadBare.nil : MembersReadBare ([] : List (Member ρ)) :=
  List.forall_mem_nil _

theorem MembersReadBare.plain {name : String} {read : DocumentFormat → Setting → Except Misfit α}
    {set : α → ρ → ρ} (reads : ∀ format, ReadsBare (read format))
    (others : MembersReadBare members) :
    MembersReadBare (Member.plain name read set :: members) :=
  List.forall_mem_cons.mpr ⟨memberReadsBare_plain name reads set, others⟩

theorem MembersReadBare.nested {name : String}
    {read : DocumentFormat → Setting → Except Misfit (Reading α)} {set : α → ρ → ρ}
    (reads : ∀ format, ReadsBare (read format)) (others : MembersReadBare members) :
    MembersReadBare (Member.nested name read set :: members) :=
  List.forall_mem_cons.mpr ⟨memberReadsBare_nested name reads set, others⟩

theorem readFields_bareFields (reads : MembersReadBare members)
    (fields : List (Key × Setting)) (record : ρ) :
    readFields format members (bare.bareFields fields) record =
      (readFields format members fields record).mapError Misfit.unplaced := by
  induction fields generalizing record with
  | nil =>
      rfl
  | cons field rest inductionHypothesis =>
      obtain ⟨key, setting⟩ := field
      rw [bare.bareFields, readFields, readFields]
      dsimp only
      cases found : members.find? fun candidate => candidate.name == key.name with
      | none =>
          dsimp only
          rw [inductionHypothesis, mapError_bind]
          rfl
      | some member =>
          have replaced := reads member (List.mem_of_find?_eq_some found) format record setting
          dsimp only at replaced ⊢
          rw [replaced]
          cases member.replace format setting record with
          | error misfit =>
              -- The misfit takes its place from the field, and a bare field has none to give.
              rw [place_bare]
              rfl
          | ok reading =>
              rw [mapError_ok]
              dsimp only
              rw [inductionHypothesis]
              cases readFields format members rest reading.value <;> rfl

theorem readPositions_bareElements (reads : MembersReadBare members)
    (elements : List Setting) (record : ρ) :
    readPositions format members (bare.bareElements elements) record =
      (readPositions format members elements record).mapError Misfit.unplaced := by
  induction members generalizing elements record with
  | nil =>
      rfl
  | cons next others inductionHypothesis =>
      cases elements with
      | nil =>
          rfl
      | cons element rest =>
          obtain ⟨readsNext, readsOthers⟩ := List.forall_mem_cons.mp reads
          have replaced := readsNext format record element
          have later := inductionHypothesis readsOthers
          dsimp only at replaced
          rw [bare.bareElements, readPositions, readPositions, replaced, mapError_bind]
          congr 1
          funext reading
          rw [later, mapError_bind]
          rfl

theorem readSequence_bareElements (reads : MembersReadBare members) (start : ρ) (elements : List Setting) :
    readSequence format members start (bare.bareElements elements) =
      (readSequence format members start elements).mapError Misfit.unplaced := by
  rw [readSequence, readSequence, readPositions_bareElements reads, mapError_bind,
    bareElements_eq_map, List.length_map]
  congr 1
  funext reading
  split <;> rfl

/-- What is read as a record from a bare setting is what is read from the setting. -/
theorem readsBare_readRecord
    (name : String) (reads : MembersReadBare members) (start : ρ) (format : DocumentFormat) :
    ReadsBare (readRecord name members start format) := by
  intro setting
  cases setting with
  | table place form fields =>
      exact readFields_bareFields reads fields start
  | sequence place elements =>
      exact readSequence_bareElements reads start elements
  | tables place elements =>
      exact readSequence_bareElements reads start elements
  | moment place =>
      rfl
  | _ =>
      exact refuseType_bare format (.record name) _

/-- Settings that are alike apart from their places are read as the same value. -/
theorem ReadsBare.ok_of_bare_eq {read : Setting → Except Misfit α} (reads : ReadsBare read)
    {left right : Setting} (alike : left.bare = right.bare) {value : α}
    (leftRead : read left = .ok value) : read right = .ok value := by
  have rightBare := reads right
  rw [← alike, reads, leftRead] at rightBare
  cases rightRead : read right with
  | error misfit =>
      rw [rightRead] at rightBare
      cases rightBare
  | ok found =>
      rw [rightRead] at rightBare
      cases rightBare
      rfl

end Setting

end ClojureBuild
