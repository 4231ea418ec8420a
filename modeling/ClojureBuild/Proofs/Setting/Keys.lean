import ClojureBuild.Proofs.Build.Results
import ClojureBuild.Proofs.Setting.Outline
import Mathlib.Data.List.ReduceOption

/-!
# Keys of a setting

What reading a record reports is found in its document without reading it: the unknown keys, each with
its place, and the moments that stand where a section should.
-/

namespace ClojureBuild

open Setting

/-! ## All keys of a setting -/

section AllKeys

variable (holds : Key → Prop)

/-- Every key of a setting and of the settings in it has a property. -/
def Setting.AllKeys : Setting → Prop
  | .sequence _ elements => onElements elements
  | .tables _ elements => onElements elements
  | .table _ _ fields => onFields fields
  | _ => True
where
  /-- Every key in the elements of a list has the property. -/
  onElements : List Setting → Prop
    | [] => True
    | element :: rest => AllKeys element ∧ onElements rest
  /-- Every key of fields and in their settings has the property. -/
  onFields : List (Key × Setting) → Prop
    | [] => True
    | (key, setting) :: rest => holds key ∧ AllKeys setting ∧ onFields rest

namespace Setting.AllKeys

variable {holds}

theorem onFields_nil : onFields holds [] :=
  trivial

theorem onElements_iff {elements : List Setting} :
    onElements holds elements ↔ ∀ element ∈ elements, element.AllKeys holds := by
  induction elements with
  | nil =>
      simp [onElements]
  | cons element rest inductionHypothesis =>
      rw [onElements, inductionHypothesis, List.forall_mem_cons]

theorem onFields_iff {fields : List (Key × Setting)} :
    onFields holds fields ↔ ∀ field ∈ fields, holds field.1 ∧ field.2.AllKeys holds := by
  induction fields with
  | nil =>
      simp [onFields]
  | cons field rest inductionHypothesis =>
      rw [onFields, inductionHypothesis, List.forall_mem_cons, and_assoc]

theorem onElements_append {before after : List Setting} :
    onElements holds (before ++ after) ↔ onElements holds before ∧ onElements holds after := by
  simp only [onElements_iff, List.forall_mem_append]

theorem onFields_append {before after : List (Key × Setting)} :
    onFields holds (before ++ after) ↔ onFields holds before ∧ onFields holds after := by
  simp only [onFields_iff, List.forall_mem_append]

end Setting.AllKeys

end AllKeys

namespace Outline

/-! ## Findings -/

/-- What there is to report about a setting, in order: an unknown key of a table or of a known section
in it, or `none` for a moment in the place of a section, which has no key to point at.  A section may
also be written as the list of its members. -/
def findings : Outline → Setting → List (Option Key)
  | .table known, .table _ _ fields => ofFields known fields
  | .table known, .sequence _ elements => ofElements known elements
  | .table known, .tables _ elements => ofElements known elements
  | .table _, .moment _ => [none]
  | _, _ => []
where
  /-- What there is to report about fields. -/
  ofFields (known : List (String × Outline)) : List (Key × Setting) → List (Option Key)
    | [] => []
    | (key, setting) :: rest =>
        match known.lookup key.name with
        | some below => findings below setting ++ ofFields known rest
        | none => some key :: ofFields known rest
  /-- What there is to report about the members of a section, in their order. -/
  ofElements : List (String × Outline) → List Setting → List (Option Key)
    | entry :: known, element :: rest => findings entry.2 element ++ ofElements known rest
    | _, _ => []

/-- The unknown keys of a setting with their places, in order. -/
def strayKeys (outline : Outline) (setting : Setting) : List Key :=
  (outline.findings setting).reduceOption

/-- The name under which a finding is reported. -/
def reportedName : Option Key → String
  | some key => key.name
  | none => momentKey

theorem findings_value (setting : Setting) : value.findings setting = [] := by
  cases setting <;> rfl

theorem reportedNames_of_none_notMem {found : List (Option Key)} (noMoment : none ∉ found) :
    found.map reportedName = found.reduceOption.map Key.name := by
  induction found with
  | nil =>
      rfl
  | cons finding rest inductionHypothesis =>
      rw [List.mem_cons, not_or] at noMoment
      obtain ⟨isKey, noMomentLater⟩ := noMoment
      cases finding with
      | none =>
          exact absurd rfl isKey
      | some key =>
          rw [List.map_cons, inductionHypothesis noMomentLater, List.reduceOption_cons_of_some,
            List.map_cons, reportedName]

/-- What holds of every key of a setting holds of its unknown ones. -/
theorem holds_of_mem_findings {holds : Key → Prop} {key : Key} :
    ∀ (outline : Outline) (setting : Setting), setting.AllKeys holds →
      some key ∈ outline.findings setting → holds key := by
  refine findings.induct
    (fun known fields => AllKeys.onFields holds fields →
      some key ∈ findings.ofFields known fields → holds key) _
    (fun known elements => AllKeys.onElements holds elements →
      some key ∈ findings.ofElements known elements → holds key)
    (fun _ _ _ _ => id) (fun _ _ _ => id) (fun _ _ _ => id) ?moment ?other ?element ?noElement
    ?noField ?knownField ?unknownField
  case moment =>
    intro known place _ member
    simp [findings] at member
  case other =>
    intro setting outline notTable notSequence notTables notMoment _ member
    rw [findings.eq_5 outline setting notTable notSequence notTables notMoment] at member
    simp at member
  case element =>
    intro entry known element rest inElement inRest all member
    rw [findings.ofElements, List.mem_append] at member
    exact member.elim (inElement all.1) (inRest all.2)
  case noElement =>
    intro elements known notBoth _ member
    rw [findings.ofElements.eq_2 known elements notBoth] at member
    simp at member
  case noField =>
    intro known _ member
    simp [findings.ofFields] at member
  case knownField =>
    intro known key setting rest below isKnown inSetting inRest all member
    rw [findings.ofFields, isKnown, List.mem_append] at member
    exact member.elim (inSetting all.2.1) (inRest all.2.2)
  case unknownField =>
    intro known key setting rest isUnknown inRest all member
    rw [findings.ofFields, isUnknown, List.mem_cons, Option.some_inj] at member
    obtain rfl | later := member
    · exact all.1
    · exact inRest all.2.2 later

/-! ## Readers -/

variable {α ρ : Type} {outline : Outline}

/-- The outline tells what a reader reports. -/
def Tells (outline : Outline) (read : Setting → Except Misfit (Reading α)) : Prop :=
  ∀ setting reading, read setting = .ok reading →
    reading.unknownKeys = (outline.findings setting).map reportedName

/-- The outline tells what is reported when a member is replaced. -/
def TellsMember (outline : Outline) (member : Member ρ) : Prop :=
  ∀ format record, outline.Tells fun setting => member.replace format setting record

/-- The outlines tell what is reported about the members, in their order and under their names. -/
def TellMembers (known : List (String × Outline)) (members : List (Member ρ)) : Prop :=
  List.Forall₂ (fun entry member => entry.1 = member.name ∧ entry.2.TellsMember member)
    known members

theorem tellsMember_plain (name : String) (read : DocumentFormat → Setting → Except Misfit α)
    (set : α → ρ → ρ) : value.TellsMember (Member.plain name read set) := by
  intro format record setting reading replaced
  dsimp only [Member.plain] at replaced
  rw [findings_value]
  cases found : read format setting with
  | error misfit =>
      rw [found] at replaced
      cases replaced
  | ok content =>
      rw [found] at replaced
      cases replaced
      rfl

theorem tellsMember_nested (name : String)
    {read : DocumentFormat → Setting → Except Misfit (Reading α)}
    (tells : ∀ format, outline.Tells (read format)) (set : α → ρ → ρ) :
    outline.TellsMember (Member.nested name read set) := by
  intro format record setting reading replaced
  dsimp only [Member.nested] at replaced
  cases found : read format setting with
  | error misfit =>
      rw [found] at replaced
      cases replaced
  | ok content =>
      rw [found] at replaced
      cases replaced
      exact tells format setting content found

namespace TellMembers

variable {known : List (String × Outline)} {members : List (Member ρ)} {format : DocumentFormat}
variable {record : ρ} {reading : Reading ρ}

theorem nil : TellMembers [] ([] : List (Member ρ)) :=
  List.Forall₂.nil

theorem plain {name : String} {read : DocumentFormat → Setting → Except Misfit α}
    {set : α → ρ → ρ} (tell : TellMembers known members) :
    TellMembers ((name, value) :: known) (Member.plain name read set :: members) :=
  .cons ⟨rfl, tellsMember_plain name read set⟩ tell

theorem nested {name : String} {read : DocumentFormat → Setting → Except Misfit (Reading α)}
    {set : α → ρ → ρ} (tells : ∀ format, outline.Tells (read format))
    (tell : TellMembers known members) :
    TellMembers ((name, outline) :: known) (Member.nested name read set :: members) :=
  .cons ⟨rfl, tellsMember_nested name tells set⟩ tell

theorem readFields (tell : TellMembers known members) {fields : List (Key × Setting)}
    (accepted : Setting.readFields format members fields record = .ok reading) :
    reading.unknownKeys = (findings.ofFields known fields).map reportedName := by
  induction fields generalizing record reading with
  | nil =>
      cases accepted
      rfl
  | cons field rest inductionHypothesis =>
      obtain ⟨key, setting⟩ := field
      rw [Setting.readFields] at accepted
      obtain ⟨isUnknown, notFound⟩ | ⟨below, member, isKnown, found, tells⟩ :=
        lookup_find?_of_forall₂ tell key.name
      · rw [notFound] at accepted
        obtain ⟨later, readLater, ⟨⟩⟩ := Build.bind_eq_ok_iff.mp accepted
        rw [findings.ofFields, isUnknown, List.map_cons, inductionHypothesis readLater]
        rfl
      · rw [found] at accepted
        dsimp only at accepted
        split at accepted
        next replacing replaced =>
          obtain ⟨later, readLater, ⟨⟩⟩ := Build.bind_eq_ok_iff.mp accepted
          rw [findings.ofFields, isKnown, List.map_append, inductionHypothesis readLater,
            tells format record setting replacing replaced]
        next =>
          cases accepted

theorem readPositions (tell : TellMembers known members) {elements : List Setting}
    (accepted : Setting.readPositions format members elements record = .ok reading) :
    reading.unknownKeys = (findings.ofElements known elements).map reportedName := by
  induction tell generalizing elements record reading with
  | nil =>
      cases accepted
      cases elements <;> rfl
  | @cons entry member entries others first _ inductionHypothesis =>
      cases elements with
      | nil =>
          cases accepted
          rfl
      | cons element rest =>
          obtain ⟨replacing, replaced, readRest⟩ := Build.bind_eq_ok_iff.mp accepted
          obtain ⟨later, readLater, ⟨⟩⟩ := Build.bind_eq_ok_iff.mp readRest
          rw [findings.ofElements, List.map_append, inductionHypothesis readLater,
            first.2 format record element replacing replaced]

theorem readSequence (tell : TellMembers known members) {start : ρ} {elements : List Setting}
    (accepted : Setting.readSequence format members start elements = .ok reading) :
    reading.unknownKeys = (findings.ofElements known elements).map reportedName := by
  obtain ⟨positions, readPositions, finished⟩ := Build.bind_eq_ok_iff.mp accepted
  split at finished
  · cases finished
  · cases finished
    exact tell.readPositions readPositions

/-- The outlines of the members tell what is reported about a record. -/
theorem readRecord (tell : TellMembers known members) (name : String) (start : ρ)
    (format : DocumentFormat) :
    (table known).Tells (Setting.readRecord name members start format) := by
  intro setting reading accepted
  cases setting with
  | table place form fields =>
      exact tell.readFields accepted
  | sequence place elements =>
      exact tell.readSequence accepted
  | tables place elements =>
      exact tell.readSequence accepted
  | moment place =>
      cases accepted
      rfl
  | _ =>
      cases accepted

end TellMembers

end Outline

end ClojureBuild
