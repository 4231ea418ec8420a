import ClojureBuild.Proofs.Path.Below

/-!
# The order of paths

Paths are ordered by their components.  One path is strictly before another when it is at most the
other and not the same, and below one path the order is that of the names.
-/

namespace ClojureBuild.Path

/-! ## The order of components -/

theorem Component.eq_of_atMost {left right : Component}
    (forth : left.atMost right = true) (back : right.atMost left = true) : left = right := by
  cases left with
  | top =>
      cases right <;> simp_all [atMost, rank]
  | current =>
      cases right <;> simp_all [atMost, rank]
  | parent =>
      cases right <;> simp_all [atMost, rank]
  | name text =>
      cases right with
      | name other =>
          rw [String.le_antisymm (of_decide_eq_true forth) (of_decide_eq_true back)]
      | top =>
          cases forth
      | current =>
          cases forth
      | parent =>
          cases forth

theorem Component.atMost_total (left right : Component) :
    left.atMost right = true ∨ right.atMost left = true := by
  cases left with
  | name text =>
      cases right with
      | name other =>
          simpa [atMost] using String.le_total text other
      | top =>
          exact Or.inr rfl
      | current =>
          exact Or.inr rfl
      | parent =>
          exact Or.inr rfl
  | top =>
      cases right <;> simp [atMost, rank]
  | current =>
      cases right <;> simp [atMost, rank]
  | parent =>
      cases right <;> simp [atMost, rank]

theorem Component.rank_le_of_atMost {left right : Component}
    (ordered : left.atMost right = true) : left.rank ≤ right.rank := by
  cases left with
  | name text =>
      cases right with
      | name other =>
          exact Nat.le_refl _
      | top =>
          cases ordered
      | current =>
          cases ordered
      | parent =>
          cases ordered
  | top =>
      exact Nat.zero_le _
  | current =>
      exact of_decide_eq_true ordered
  | parent =>
      exact of_decide_eq_true ordered

theorem Component.atMost_trans {first second third : Component}
    (forth : first.atMost second = true) (onward : second.atMost third = true) :
    first.atMost third = true := by
  have ranks := Nat.le_trans (rank_le_of_atMost forth) (rank_le_of_atMost onward)
  cases first with
  | name text =>
      cases third with
      | name other =>
          cases second with
          | name between =>
              exact decide_eq_true
                (String.le_trans (of_decide_eq_true forth) (of_decide_eq_true onward))
          | top =>
              cases forth
          | current =>
              cases forth
          | parent =>
              cases forth
      | top =>
          exact decide_eq_true ranks
      | current =>
          exact decide_eq_true ranks
      | parent =>
          exact decide_eq_true ranks
  | top =>
      exact decide_eq_true ranks
  | current =>
      exact decide_eq_true ranks
  | parent =>
      exact decide_eq_true ranks

theorem eq_of_componentsAtMost {lefts rights : List Component}
    (forth : componentsAtMost lefts rights = true)
    (back : componentsAtMost rights lefts = true) : lefts = rights := by
  induction lefts generalizing rights with
  | nil =>
      cases rights with
      | nil =>
          rfl
      | cons right rights =>
          cases back
  | cons left lefts inductionHypothesis =>
      cases rights with
      | nil =>
          cases forth
      | cons right rights =>
          by_cases same : left = right
          · subst same
            simp only [componentsAtMost, if_true] at forth back
            rw [inductionHypothesis forth back]
          · simp only [componentsAtMost, same, Ne.symm same, if_false] at forth back
            exact absurd (Component.eq_of_atMost forth back) same

theorem componentsAtMost_total (lefts rights : List Component) :
    componentsAtMost lefts rights = true ∨ componentsAtMost rights lefts = true := by
  induction lefts generalizing rights with
  | nil =>
      exact Or.inl rfl
  | cons left lefts inductionHypothesis =>
      cases rights with
      | nil =>
          exact Or.inr rfl
      | cons right rights =>
          by_cases same : left = right
          · subst same
            simpa [componentsAtMost] using inductionHypothesis rights
          · simpa [componentsAtMost, same, Ne.symm same] using left.atMost_total right

theorem componentsAtMost_trans {firsts seconds thirds : List Component}
    (forth : componentsAtMost firsts seconds = true)
    (onward : componentsAtMost seconds thirds = true) :
    componentsAtMost firsts thirds = true := by
  induction firsts generalizing seconds thirds with
  | nil =>
      rfl
  | cons first firsts inductionHypothesis =>
      cases seconds with
      | nil =>
          cases forth
      | cons second seconds =>
          cases thirds with
          | nil =>
              cases onward
          | cons third thirds =>
              by_cases begins : first = second
              · subst begins
                by_cases ends : first = third
                · subst ends
                  simp only [componentsAtMost, if_true] at forth onward ⊢
                  exact inductionHypothesis forth onward
                · simpa only [componentsAtMost, if_neg ends] using onward
              · simp only [componentsAtMost, if_neg begins] at forth
                by_cases ends : second = third
                · subst ends
                  simpa only [componentsAtMost, if_neg begins] using forth
                · simp only [componentsAtMost, if_neg ends] at onward
                  have differ : first ≠ third := by
                    intro same
                    rw [← same] at onward
                    exact begins (Component.eq_of_atMost forth onward)
                  simp only [componentsAtMost, if_neg differ]
                  exact Component.atMost_trans forth onward

theorem componentsAtMost_append (front lefts rights : List Component) :
    componentsAtMost (front ++ lefts) (front ++ rights) = componentsAtMost lefts rights := by
  induction front with
  | nil =>
      rfl
  | cons head tail inductionHypothesis =>
      simpa [componentsAtMost] using inductionHypothesis

theorem componentsAtMost_names {lefts rights : List String} (precedes : lefts < rights) :
    componentsAtMost (lefts.map .name) (rights.map .name) = true := by
  induction lefts generalizing rights with
  | nil =>
      rfl
  | cons left lefts inductionHypothesis =>
      cases rights with
      | nil =>
          simp at precedes
      | cons right rights =>
          simp only [List.map_cons, componentsAtMost, Component.name.injEq]
          cases List.cons_lt_cons_iff.1 precedes with
          | inl headsOrdered =>
              have differ : left ≠ right := by
                intro same
                rw [same] at headsOrdered
                exact String.lt_irrefl _ headsOrdered
              rw [if_neg differ]
              exact decide_eq_true (Std.le_of_lt headsOrdered)
          | inr tailsOrdered =>
              rw [if_pos tailsOrdered.1]
              exact inductionHypothesis tailsOrdered.2

/-! ## The same path -/

variable {left middle right : Path}

theorem same_iff : left.same right = true ↔ left.components = right.components := by
  simp [same]

theorem same_self (path : Path) : path.same path = true :=
  same_iff.2 rfl

theorem same_comm (left right : Path) : left.same right = right.same left := by
  rw [Bool.eq_iff_iff, same_iff, same_iff, eq_comm]

theorem same_symm (same : left.same right = true) : right.same left = true :=
  same_iff.2 (same_iff.1 same).symm

theorem same_trans (first : left.same middle = true) (second : middle.same right = true) :
    left.same right = true :=
  same_iff.2 ((same_iff.1 first).trans (same_iff.1 second))

/-! ## The order of paths -/

theorem atMost_total (left right : Path) : left.atMost right = true ∨ right.atMost left = true :=
  componentsAtMost_total left.components right.components

theorem atMost_trans (first second third : Path) (forth : first.atMost second = true)
    (onward : second.atMost third = true) : first.atMost third = true :=
  componentsAtMost_trans forth onward

theorem same_iff_atMost (left right : Path) :
    left.same right = true ↔ left.atMost right = true ∧ right.atMost left = true := by
  rw [same_iff]
  constructor
  · intro components
    have reflexive : componentsAtMost right.components right.components = true :=
      (componentsAtMost_total _ _).elim id id
    rw [atMost, atMost, components, and_self]
    exact reflexive
  · intro ordered
    exact eq_of_componentsAtMost ordered.1 ordered.2

/-! ## The strict order of paths -/

/-- A path comes strictly before another one. -/
def Before (left right : Path) : Prop :=
  left.atMost right = true ∧ left.same right = false

theorem Before.not_before {left right : Path} (before : left.Before right) :
    ¬ right.Before left := by
  intro after
  have equal := eq_of_componentsAtMost before.1 after.1
  have different := before.2
  rw [same, equal] at different
  simp at different

theorem below_same_iff
    (base : Path) {lefts rights : List String} (leftPlain : ∀ name ∈ lefts, PlainName name)
    (rightPlain : ∀ name ∈ rights, PlainName name) :
    (base.below lefts).same (base.below rights) = true ↔ lefts = rights := by
  rw [same, beq_iff_eq, components_below base leftPlain, components_below base rightPlain,
    List.append_right_inj]
  exact List.map_inj_right fun _ _ same => Component.name.inj same

/-- Below a path the order is that of the names. -/
theorem before_below
    (base : Path) {lefts rights : List String} (leftPlain : ∀ name ∈ lefts, PlainName name)
    (rightPlain : ∀ name ∈ rights, PlainName name) (precedes : lefts < rights) :
    (base.below lefts).Before (base.below rights) := by
  constructor
  · rw [atMost, components_below base leftPlain, components_below base rightPlain,
      componentsAtMost_append]
    exact componentsAtMost_names precedes
  · rw [Bool.eq_false_iff]
    intro equal
    rw [(below_same_iff base leftPlain rightPlain).1 equal] at precedes
    exact List.lt_irrefl _ precedes

end ClojureBuild.Path
