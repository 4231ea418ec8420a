import ClojureBuild.Setting.Reading
import Mathlib.Data.List.Forall2

/-!
# Known and unknown keys

The outline of a record is the tree of the keys it knows.  It says which keys of a table are unknown,
without reading the table.
-/

namespace ClojureBuild

open Setting

/-- The keys that a setting may have: none if it stands for a value. -/
inductive Outline where
  | value
  | table (known : List (String × Outline))

namespace Outline

/-! ## Tables -/

/-- Whether each known section is written as a table. -/
def isTabular : Outline → Setting → Bool
  | .value, _ => true
  | .table known, .table _ _ fields => tabularFields known fields
  | .table _, _ => false
where
  /-- Whether each known section among the fields is written as a table. -/
  tabularFields (known : List (String × Outline)) : List (Key × Setting) → Bool
    | [] => true
    | (key, setting) :: rest =>
        (match known.lookup key.name with
          | some below => isTabular below setting
          | none => true) && tabularFields known rest

/-- The setting with only the known keys of its table and of the known sections in it. -/
def withKnownKeys : Outline → Setting → Setting
  | .table known, .table place form fields => .table place form (knownFields known fields)
  | _, setting => setting
where
  /-- The fields with known keys, each with only its known keys. -/
  knownFields (known : List (String × Outline)) : List (Key × Setting) → List (Key × Setting)
    | [] => []
    | (key, setting) :: rest =>
        match known.lookup key.name with
        | some below => (key, withKnownKeys below setting) :: knownFields known rest
        | none => knownFields known rest

/-- The unknown keys of a table and of the known sections in it, in their order. -/
def unknownKeys : Outline → Setting → List String
  | .table known, .table _ _ fields => unknownFields known fields
  | _, _ => []
where
  /-- The unknown keys among the fields and in the known sections among them. -/
  unknownFields (known : List (String × Outline)) : List (Key × Setting) → List String
    | [] => []
    | (key, setting) :: rest =>
        match known.lookup key.name with
        | some below => unknownKeys below setting ++ unknownFields known rest
        | none => key.name :: unknownFields known rest

section Fields

variable {known : List (String × Outline)} {key : Key} {below : Outline}

theorem tabularFields_cons_of_known (isKnown : known.lookup key.name = some below)
    (setting : Setting) (rest : List (Key × Setting)) :
    isTabular.tabularFields known ((key, setting) :: rest) =
      (below.isTabular setting && isTabular.tabularFields known rest) := by
  rw [isTabular.tabularFields, isKnown]

theorem tabularFields_cons_of_unknown (isUnknown : known.lookup key.name = none)
    (setting : Setting) (rest : List (Key × Setting)) :
    isTabular.tabularFields known ((key, setting) :: rest) =
      isTabular.tabularFields known rest := by
  rw [isTabular.tabularFields, isUnknown, Bool.true_and]

theorem knownFields_cons_of_known (isKnown : known.lookup key.name = some below)
    (setting : Setting) (rest : List (Key × Setting)) :
    withKnownKeys.knownFields known ((key, setting) :: rest) =
      (key, below.withKnownKeys setting) :: withKnownKeys.knownFields known rest := by
  rw [withKnownKeys.knownFields, isKnown]

theorem knownFields_cons_of_unknown (isUnknown : known.lookup key.name = none)
    (setting : Setting) (rest : List (Key × Setting)) :
    withKnownKeys.knownFields known ((key, setting) :: rest) =
      withKnownKeys.knownFields known rest := by
  rw [withKnownKeys.knownFields, isUnknown]

theorem unknownFields_cons_of_known (isKnown : known.lookup key.name = some below)
    (setting : Setting) (rest : List (Key × Setting)) :
    unknownKeys.unknownFields known ((key, setting) :: rest) =
      below.unknownKeys setting ++ unknownKeys.unknownFields known rest := by
  rw [unknownKeys.unknownFields, isKnown]

theorem unknownFields_cons_of_unknown (isUnknown : known.lookup key.name = none)
    (setting : Setting) (rest : List (Key × Setting)) :
    unknownKeys.unknownFields known ((key, setting) :: rest) =
      key.name :: unknownKeys.unknownFields known rest := by
  rw [unknownKeys.unknownFields, isUnknown]

end Fields

theorem unknownKeys_value (setting : Setting) : value.unknownKeys setting = [] := by
  cases setting <;> rfl

/-! ## Deleting the unknown keys -/

theorem unknownKeys_withKnownKeys (outline : Outline) (setting : Setting) :
    outline.unknownKeys (outline.withKnownKeys setting) = [] := by
  -- A table and its fields are followed together, one known section inside the other.
  refine withKnownKeys.induct
    (fun known fields =>
      unknownKeys.unknownFields known (withKnownKeys.knownFields known fields) = [])
    (fun outline setting => outline.unknownKeys (outline.withKnownKeys setting) = [])
    ?table ?other ?noField ?knownField ?unknownField outline setting
  case table =>
    intro known place form fields fieldsHypothesis
    exact fieldsHypothesis
  case other =>
    intro outline setting noTable
    rw [withKnownKeys.eq_2 _ _ noTable, unknownKeys.eq_2 _ _ noTable]
  case noField =>
    intro known
    rfl
  case knownField =>
    intro known key setting rest below isKnown settingHypothesis restHypothesis
    rw [knownFields_cons_of_known isKnown, unknownFields_cons_of_known isKnown,
      settingHypothesis, restHypothesis, List.nil_append]
  case unknownField =>
    intro known key setting rest isUnknown restHypothesis
    rw [knownFields_cons_of_unknown isUnknown, restHypothesis]

/-- Nothing but unknown keys is deleted. -/
theorem withKnownKeys_of_unknownKeys_eq_nil {outline : Outline} {setting : Setting} :
    outline.unknownKeys setting = [] → outline.withKnownKeys setting = setting := by
  refine withKnownKeys.induct
    (fun known fields =>
      unknownKeys.unknownFields known fields = [] →
        withKnownKeys.knownFields known fields = fields)
    (fun outline setting =>
      outline.unknownKeys setting = [] → outline.withKnownKeys setting = setting)
    ?table ?other ?noField ?knownField ?unknownField outline setting
  case table =>
    intro known place form fields fieldsHypothesis allKnown
    rw [withKnownKeys, fieldsHypothesis allKnown]
  case other =>
    intro outline setting noTable allKnown
    exact withKnownKeys.eq_2 _ _ noTable
  case noField =>
    intro known allKnown
    rfl
  case knownField =>
    intro known key setting rest below isKnown settingHypothesis restHypothesis allKnown
    rw [unknownFields_cons_of_known isKnown, List.append_eq_nil_iff] at allKnown
    rw [knownFields_cons_of_known isKnown, settingHypothesis allKnown.1,
      restHypothesis allKnown.2]
  case unknownField =>
    intro known key setting rest isUnknown restHypothesis allKnown
    rw [unknownFields_cons_of_unknown isUnknown] at allKnown
    cases allKnown

theorem withKnownKeys_withKnownKeys (outline : Outline) (setting : Setting) :
    outline.withKnownKeys (outline.withKnownKeys setting) = outline.withKnownKeys setting :=
  withKnownKeys_of_unknownKeys_eq_nil (unknownKeys_withKnownKeys outline setting)

theorem isTabular_withKnownKeys (outline : Outline) (setting : Setting) :
    outline.isTabular (outline.withKnownKeys setting) = outline.isTabular setting := by
  refine withKnownKeys.induct
    (fun known fields =>
      isTabular.tabularFields known (withKnownKeys.knownFields known fields) =
        isTabular.tabularFields known fields)
    (fun outline setting =>
      outline.isTabular (outline.withKnownKeys setting) = outline.isTabular setting)
    ?table ?other ?noField ?knownField ?unknownField outline setting
  case table =>
    intro known place form fields fieldsHypothesis
    exact fieldsHypothesis
  case other =>
    intro outline setting noTable
    rw [withKnownKeys.eq_2 _ _ noTable]
  case noField =>
    intro known
    rfl
  case knownField =>
    intro known key setting rest below isKnown settingHypothesis restHypothesis
    rw [knownFields_cons_of_known isKnown, tabularFields_cons_of_known isKnown,
      tabularFields_cons_of_known isKnown, settingHypothesis, restHypothesis]
  case unknownField =>
    intro known key setting rest isUnknown restHypothesis
    rw [knownFields_cons_of_unknown isUnknown, tabularFields_cons_of_unknown isUnknown,
      restHypothesis]

@[simp]
theorem place_withKnownKeys (outline : Outline) (setting : Setting) :
    (outline.withKnownKeys setting).place = setting.place := by
  unfold withKnownKeys
  split <;> rfl

/-! ## Adding an unknown key -/

/-- The second setting is the first one with one more field, which has the unknown name: in its
table, or in a known section of it. -/
inductive Adds (name : String) : Outline → Setting → Setting → Prop
  | here {known : List (String × Outline)} {place keyPlace : Option Extent} {form : TableForm}
      {before after : List (Key × Setting)} {added : Setting}
      (isUnknown : known.lookup name = none) :
      Adds name (.table known) (.table place form (before ++ after))
        (.table place form (before ++ (⟨name, keyPlace⟩, added) :: after))
  | inside {known : List (String × Outline)} {place : Option Extent} {form : TableForm}
      {before after : List (Key × Setting)} {key : Key} {below : Outline} {less more : Setting}
      (isKnown : known.lookup key.name = some below) (adds : Adds name below less more) :
      Adds name (.table known) (.table place form (before ++ (key, less) :: after))
        (.table place form (before ++ (key, more) :: after))

section Fields

variable (known : List (String × Outline)) (before after : List (Key × Setting))

theorem tabularFields_append :
    isTabular.tabularFields known (before ++ after) =
      (isTabular.tabularFields known before && isTabular.tabularFields known after) := by
  induction before with
  | nil =>
      rfl
  | cons field rest inductionHypothesis =>
      rw [List.cons_append, isTabular.tabularFields, isTabular.tabularFields,
        inductionHypothesis, Bool.and_assoc]

theorem knownFields_append :
    withKnownKeys.knownFields known (before ++ after) =
      withKnownKeys.knownFields known before ++ withKnownKeys.knownFields known after := by
  induction before with
  | nil =>
      rfl
  | cons field rest inductionHypothesis =>
      obtain ⟨key, setting⟩ := field
      rw [List.cons_append]
      cases found : known.lookup key.name with
      | none =>
          rw [knownFields_cons_of_unknown found, knownFields_cons_of_unknown found,
            inductionHypothesis]
      | some below =>
          rw [knownFields_cons_of_known found, knownFields_cons_of_known found,
            inductionHypothesis, List.cons_append]

theorem unknownFields_append :
    unknownKeys.unknownFields known (before ++ after) =
      unknownKeys.unknownFields known before ++ unknownKeys.unknownFields known after := by
  induction before with
  | nil =>
      rfl
  | cons field rest inductionHypothesis =>
      obtain ⟨key, setting⟩ := field
      rw [List.cons_append]
      cases found : known.lookup key.name with
      | none =>
          rw [unknownFields_cons_of_unknown found, unknownFields_cons_of_unknown found,
            inductionHypothesis, List.cons_append]
      | some below =>
          rw [unknownFields_cons_of_known found, unknownFields_cons_of_known found,
            inductionHypothesis, List.append_assoc]

end Fields

namespace Adds

variable {name : String} {outline : Outline} {less more : Setting}

theorem isTabular_eq (adds : Adds name outline less more) :
    outline.isTabular more = outline.isTabular less := by
  induction adds with
  | here isUnknown =>
      rw [isTabular, isTabular, tabularFields_append, tabularFields_append,
        tabularFields_cons_of_unknown isUnknown]
  | inside isKnown adds inductionHypothesis =>
      rw [isTabular, isTabular, tabularFields_append, tabularFields_append,
        tabularFields_cons_of_known isKnown, tabularFields_cons_of_known isKnown,
        inductionHypothesis]

theorem withKnownKeys_eq (adds : Adds name outline less more) :
    outline.withKnownKeys more = outline.withKnownKeys less := by
  induction adds with
  | here isUnknown =>
      rw [withKnownKeys, withKnownKeys, knownFields_append, knownFields_append,
        knownFields_cons_of_unknown isUnknown]
  | inside isKnown adds inductionHypothesis =>
      rw [withKnownKeys, withKnownKeys, knownFields_append, knownFields_append,
        knownFields_cons_of_known isKnown, knownFields_cons_of_known isKnown,
        inductionHypothesis]

/-- The name of the added key stands once more among the unknown keys. -/
theorem unknownKeys_eq (adds : Adds name outline less more) :
    ∃ before after, outline.unknownKeys less = before ++ after ∧
      outline.unknownKeys more = before ++ name :: after := by
  induction adds with
  | @here known place keyPlace form before after added isUnknown =>
      refine ⟨unknownKeys.unknownFields known before, unknownKeys.unknownFields known after, ?_, ?_⟩
      · rw [unknownKeys, unknownFields_append]
      · rw [unknownKeys, unknownFields_append, unknownFields_cons_of_unknown isUnknown]
  | @inside known place form before after key below less more isKnown adds inductionHypothesis =>
      obtain ⟨earlier, later, lessKeys, moreKeys⟩ := inductionHypothesis
      refine ⟨unknownKeys.unknownFields known before ++ earlier,
        later ++ unknownKeys.unknownFields known after, ?_, ?_⟩
      · rw [unknownKeys, unknownFields_append, unknownFields_cons_of_known isKnown, lessKeys]
        simp only [List.append_assoc]
      · rw [unknownKeys, unknownFields_append, unknownFields_cons_of_known isKnown, moreKeys]
        simp only [List.append_assoc, List.cons_append]

end Adds

/-! ## Readers -/

variable {α ρ : Type} {outline : Outline}

/-- The outline describes a reader: where every known section is a table, the unknown keys are
reported in their order and make no other difference. -/
def Describes (outline : Outline) (read : Setting → Except Misfit (Reading α)) : Prop :=
  ∀ setting, outline.isTabular setting →
    read setting =
      (read (outline.withKnownKeys setting)).map fun reading =>
        ⟨reading.value, outline.unknownKeys setting⟩

namespace Describes

variable {read : Setting → Except Misfit (Reading α)} {setting : Setting} {reading : Reading α}

/-- Without its unknown keys a setting is read as the same value. -/
theorem read_withKnownKeys (describes : outline.Describes read)
    (tabular : outline.isTabular setting) (accepted : read setting = .ok reading) :
    read (outline.withKnownKeys setting) = .ok ⟨reading.value, []⟩ := by
  have readSetting := describes setting tabular
  have readKnown := describes (outline.withKnownKeys setting)
    ((isTabular_withKnownKeys outline setting).trans tabular)
  rw [withKnownKeys_withKnownKeys, unknownKeys_withKnownKeys] at readKnown
  cases found : read (outline.withKnownKeys setting) with
  | error misfit =>
      rw [accepted, found] at readSetting
      cases readSetting
  | ok known =>
      rw [accepted, found] at readSetting
      rw [found] at readKnown
      cases readSetting
      exact readKnown

/-- With one more unknown key a setting is read as the same value, and the key is reported. -/
theorem read_of_adds (describes : outline.Describes read) (tabular : outline.isTabular setting)
    (accepted : read setting = .ok reading) {name : String} {more : Setting}
    (adds : Adds name outline setting more) :
    ∃ before after, reading.unknownKeys = before ++ after ∧
      read more = .ok ⟨reading.value, before ++ name :: after⟩ := by
  obtain ⟨before, after, lessKeys, moreKeys⟩ := adds.unknownKeys_eq
  have readSetting := describes setting tabular
  have readMore := describes more (adds.isTabular_eq.trans tabular)
  have readKnown := describes.read_withKnownKeys tabular accepted
  rw [accepted, readKnown] at readSetting
  rw [adds.withKnownKeys_eq, readKnown, moreKeys] at readMore
  refine ⟨before, after, ?_, readMore⟩
  rw [Except.ok.inj readSetting]
  exact lessKeys

end Describes

/-! ## Records -/

/-- If outlines go with members under their names, the known keys are the names of the members. -/
theorem lookup_find?_of_forall₂ {goesWith : Outline → Member ρ → Prop}
    {known : List (String × Outline)} {members : List (Member ρ)}
    (alike : List.Forall₂ (fun entry member => entry.1 = member.name ∧ goesWith entry.2 member)
      known members)
    (name : String) :
    (known.lookup name = none ∧
        (members.find? fun candidate => candidate.name == name) = none) ∨
      ∃ below member, known.lookup name = some below ∧
        (members.find? fun candidate => candidate.name == name) = some member ∧
          goesWith below member := by
  induction alike with
  | nil =>
      exact .inl ⟨rfl, rfl⟩
  | @cons entry member entries others first _ inductionHypothesis =>
      obtain ⟨sameName, goes⟩ := first
      by_cases named : member.name = name
      · refine .inr ⟨entry.2, member, ?_, ?_, goes⟩
        · rw [List.lookup_cons, sameName, named, beq_self_eq_true]
        · rw [List.find?, named, beq_self_eq_true]
      · rw [List.lookup_cons, sameName, beq_eq_false_iff_ne.mpr (Ne.symm named), List.find?,
          beq_eq_false_iff_ne.mpr named]
        exact inductionHypothesis

/-- The outline describes how a member is replaced. -/
def DescribesMember (outline : Outline) (member : Member ρ) : Prop :=
  ∀ format record, outline.Describes fun setting => member.replace format setting record

/-- The outlines are those of the members, in their order and under their names. -/
def DescribeMembers (known : List (String × Outline)) (members : List (Member ρ)) : Prop :=
  List.Forall₂ (fun entry member => entry.1 = member.name ∧ entry.2.DescribesMember member)
    known members

theorem describesMember_plain (name : String)
    (read : DocumentFormat → Setting → Except Misfit α) (set : α → ρ → ρ) :
    value.DescribesMember (Member.plain name read set) := by
  intro format record setting tabular
  dsimp only [Member.plain]
  rw [withKnownKeys_of_unknownKeys_eq_nil (unknownKeys_value setting), unknownKeys_value]
  cases read format setting <;> rfl

theorem describesMember_nested (name : String)
    {read : DocumentFormat → Setting → Except Misfit (Reading α)}
    (describes : ∀ format, outline.Describes (read format)) (set : α → ρ → ρ) :
    outline.DescribesMember (Member.nested name read set) := by
  intro format record setting tabular
  dsimp only [Member.nested]
  rw [describes format setting tabular]
  cases read format (outline.withKnownKeys setting) <;> rfl

namespace DescribeMembers

variable {known : List (String × Outline)} {members : List (Member ρ)}

theorem nil : DescribeMembers [] ([] : List (Member ρ)) :=
  List.Forall₂.nil

theorem plain {name : String} {read : DocumentFormat → Setting → Except Misfit α}
    {set : α → ρ → ρ} (describe : DescribeMembers known members) :
    DescribeMembers ((name, value) :: known) (Member.plain name read set :: members) :=
  .cons ⟨rfl, describesMember_plain name read set⟩ describe

theorem nested {name : String} {read : DocumentFormat → Setting → Except Misfit (Reading α)}
    {set : α → ρ → ρ} (describes : ∀ format, outline.Describes (read format))
    (describe : DescribeMembers known members) :
    DescribeMembers ((name, outline) :: known) (Member.nested name read set :: members) :=
  .cons ⟨rfl, describesMember_nested name describes set⟩ describe

theorem find? (describe : DescribeMembers known members) (name : String) :
    (known.lookup name = none ∧
        (members.find? fun candidate => candidate.name == name) = none) ∨
      ∃ below member, known.lookup name = some below ∧
        (members.find? fun candidate => candidate.name == name) = some member ∧
          below.DescribesMember member :=
  lookup_find?_of_forall₂ describe name

/-- The fields of a table are read as their known part is, and the unknown keys are reported. -/
theorem readFields (describe : DescribeMembers known members)
    (format : DocumentFormat) (fields : List (Key × Setting)) (record : ρ)
    (tabular : isTabular.tabularFields known fields) :
    Setting.readFields format members fields record =
      (Setting.readFields format members (withKnownKeys.knownFields known fields) record).map
        fun reading => ⟨reading.value, unknownKeys.unknownFields known fields⟩ := by
  induction fields generalizing record with
  | nil =>
      rfl
  | cons field rest inductionHypothesis =>
      obtain ⟨key, setting⟩ := field
      obtain ⟨isUnknown, notFound⟩ | ⟨below, member, isKnown, found, describes⟩ :=
        describe.find? key.name
      · rw [tabularFields_cons_of_unknown isUnknown] at tabular
        rw [knownFields_cons_of_unknown isUnknown, unknownFields_cons_of_unknown isUnknown,
          Setting.readFields, notFound]
        -- An unknown field leaves the record as the fields before made it.
        dsimp only
        rw [inductionHypothesis record tabular]
        cases Setting.readFields format members (withKnownKeys.knownFields known rest) record <;>
          rfl
      · rw [tabularFields_cons_of_known isKnown, Bool.and_eq_true] at tabular
        have replaced := describes format record setting tabular.1
        dsimp only at replaced
        rw [knownFields_cons_of_known isKnown, unknownFields_cons_of_known isKnown,
          Setting.readFields, Setting.readFields, found]
        dsimp only
        rw [replaced]
        cases member.replace format (below.withKnownKeys setting) record with
        | error misfit =>
            dsimp only [Except.map]
            rw [place_withKnownKeys]
        | ok reading =>
            dsimp only [Except.map]
            rw [inductionHypothesis reading.value tabular.2]
            cases Setting.readFields format members (withKnownKeys.knownFields known rest)
              reading.value <;> rfl

/-- The outline of a record is made up of the outlines of its members. -/
theorem readRecord (describe : DescribeMembers known members) (name : String)
    (start : ρ) (format : DocumentFormat) :
    (table known).Describes (Setting.readRecord name members start format) := by
  intro setting tabular
  cases setting with
  | table place form fields =>
      exact describe.readFields format fields start tabular
  | _ =>
      cases tabular

end DescribeMembers

end Outline

end ClojureBuild
