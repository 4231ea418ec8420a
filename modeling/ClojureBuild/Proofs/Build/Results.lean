import Mathlib.Data.List.Forall2

/-!
# Results of steps

A sequence of steps that may fail succeeds when all of them do, and fails as the first one that fails.
-/

namespace ClojureBuild.Build

variable {α β ε ζ : Type} {step : α → Except ε β} {item : α} {items : List α} {reason : ε}

/-! ## Two steps -/

theorem bind_eq_ok_iff {first : Except ε α} {second : α → Except ε β} {result : β} :
    (first >>= second) = .ok result ↔
      ∃ value, first = .ok value ∧ second value = .ok result := by
  cases first with
  | error failure =>
      simp [bind, Except.bind]
  | ok value =>
      simp [bind, Except.bind]

theorem bind_eq_error_iff {first : Except ε α} {second : α → Except ε β} :
    (first >>= second) = .error reason ↔
      first = .error reason ∨ ∃ value, first = .ok value ∧ second value = .error reason := by
  cases first with
  | error failure =>
      simp [bind, Except.bind]
  | ok value =>
      simp [bind, Except.bind]

theorem mapError_eq_ok_iff {toError : ε → ζ} {result : Except ε α} {value : α} :
    result.mapError toError = .ok value ↔ result = .ok value := by
  cases result with
  | error failure =>
      simp [Except.mapError]
  | ok held =>
      simp [Except.mapError]

theorem mapError_eq_error_iff {toError : ε → ζ} {result : Except ε α} {failure : ζ} :
    result.mapError toError = .error failure ↔
      ∃ reason, failure = toError reason ∧ result = .error reason := by
  cases result with
  | error reason =>
      simp [Except.mapError, eq_comm]
  | ok value =>
      simp [Except.mapError]

/-! ## A step for every item of a list -/

/-- A step fails for one of the items, after it has succeeded for those in front of it. -/
def FailsFirst (step : α → Except ε β) (items : List α) (reason : ε) : Prop :=
  ∃ front item rest, items = front ++ item :: rest ∧
    (∀ earlier ∈ front, ∃ value, step earlier = .ok value) ∧ step item = .error reason

theorem failsFirst_cons_iff :
    FailsFirst step (item :: items) reason ↔
      step item = .error reason ∨
        ∃ value, step item = .ok value ∧ FailsFirst step items reason := by
  constructor
  · rintro ⟨front, stopping, rest, split, before, stopped⟩
    cases front with
    | nil =>
        cases split
        exact Or.inl stopped
    | cons first front =>
        cases split
        obtain ⟨value, done⟩ := before item List.mem_cons_self
        exact Or.inr ⟨value, done, front, stopping, rest, rfl,
          fun earlier member => before earlier (List.mem_cons_of_mem item member), stopped⟩
  · intro fails
    cases fails with
    | inl stopped =>
        exact ⟨[], item, items, rfl, by simp, stopped⟩
    | inr onward =>
        obtain ⟨value, done, front, stopping, rest, rfl, before, stopped⟩ := onward
        refine ⟨item :: front, stopping, rest, rfl, ?_, stopped⟩
        exact List.forall_mem_cons.2 ⟨⟨value, done⟩, before⟩

/-- A failure may be told in other words. -/
theorem failsFirst_mapError_iff {toError : ε → ζ} {failure : ζ} :
    FailsFirst (fun item => (step item).mapError toError) items failure ↔
      ∃ reason, failure = toError reason ∧ FailsFirst step items reason := by
  simp only [FailsFirst, mapError_eq_ok_iff, mapError_eq_error_iff]
  constructor
  · rintro ⟨front, item, rest, split, before, reason, same, stopped⟩
    exact ⟨reason, same, front, item, rest, split, before, stopped⟩
  · rintro ⟨reason, same, front, item, rest, split, before, stopped⟩
    exact ⟨front, item, rest, split, before, reason, same, stopped⟩

theorem mapM_eq_ok_iff {values : List β} :
    items.mapM step = .ok values ↔
      List.Forall₂ (fun item value => step item = .ok value) items values := by
  induction items generalizing values with
  | nil =>
      rw [List.forall₂_nil_left_iff]
      constructor
      · intro done
        cases done
        rfl
      · rintro rfl
        rfl
  | cons item rest inductionHypothesis =>
      rw [List.mapM_cons, bind_eq_ok_iff]
      constructor
      · rintro ⟨value, one, onward⟩
        obtain ⟨others, behind, last⟩ := bind_eq_ok_iff.1 onward
        cases last
        exact List.Forall₂.cons one (inductionHypothesis.1 behind)
      · intro related
        cases related with
        | cons one behind =>
            refine ⟨_, one, bind_eq_ok_iff.2 ⟨_, ?_, rfl⟩⟩
            exact inductionHypothesis.2 behind

theorem mapM_eq_error_iff : items.mapM step = .error reason ↔ FailsFirst step items reason := by
  induction items with
  | nil =>
      constructor
      · intro contradiction
        cases contradiction
      · rintro ⟨front, item, rest, split, -⟩
        simp at split
  | cons item rest inductionHypothesis =>
      have others (value : β) :
          (rest.mapM step >>= fun values => pure (value :: values)) = .error reason ↔
            FailsFirst step rest reason := by
        rw [bind_eq_error_iff, inductionHypothesis]
        simp [pure, Except.pure]
      simp only [List.mapM_cons, bind_eq_error_iff, others, failsFirst_cons_iff]

theorem exists_forall₂_iff {related : α → β → Prop} :
    (∃ values, List.Forall₂ related items values) ↔
      ∀ item ∈ items, ∃ value, related item value := by
  induction items with
  | nil =>
      simp
  | cons item rest inductionHypothesis =>
      rw [List.forall_mem_cons, ← inductionHypothesis]
      constructor
      · rintro ⟨values, both⟩
        cases both with
        | cons one behind =>
            exact ⟨⟨_, one⟩, _, behind⟩
      · rintro ⟨⟨value, one⟩, values, behind⟩
        exact ⟨value :: values, List.Forall₂.cons one behind⟩

end ClojureBuild.Build
