import ClojureBuild.Classpath
import ClojureBuild.Proofs.Path.Order

/-!
# Entries of a classpath

A classpath that is put together from paths keeps the first occurrence of each of them.  To end in a
path, it gives up the entry that is the same and adds the path at the end.
-/

namespace ClojureBuild

namespace Path

variable {left middle right path last : Path} {paths : List Path}

/-! ## Occurrences -/

/-- The paths without those that an earlier one is the same as. -/
def firstOccurrences : List Path → List Path
  | [] => []
  | path :: rest => path :: (firstOccurrences rest).filter fun later => !path.same later

/-- What occurs once only is its own first occurrence. -/
theorem firstOccurrences_eq_self
    (distinct : paths.Pairwise fun left right => left.same right = false) :
    firstOccurrences paths = paths := by
  induction paths with
  | nil =>
      rfl
  | cons path rest inductionHypothesis =>
      obtain ⟨apart, distinctRest⟩ := List.pairwise_cons.1 distinct
      rw [firstOccurrences, inductionHypothesis distinctRest, List.filter_eq_self.2]
      intro later member
      rw [apart later member]
      rfl

/-- The first occurrences come in the order in which the paths are first met. -/
theorem firstOccurrences_inOrder (paths : List Path) :
    (firstOccurrences paths).Pairwise fun left right =>
      paths.findIdx left.same < paths.findIdx right.same := by
  induction paths with
  | nil =>
      exact List.Pairwise.nil
  | cons path rest inductionHypothesis =>
      have later :
          ∀ other ∈ (firstOccurrences rest).filter (fun later => !path.same later),
            (path :: rest).findIdx other.same = rest.findIdx other.same + 1 := by
        intro other member
        have apart : other.same path = false := by
          simpa [same_comm other path] using (List.mem_filter.1 member).2
        rw [List.findIdx_cons, apart]
        rfl
      have atHead : (path :: rest).findIdx path.same = 0 := by
        rw [List.findIdx_cons, same_self]
        rfl
      rw [firstOccurrences, List.pairwise_cons]
      constructor
      · intro other member
        rw [atHead, later other member]
        omega
      · apply (inductionHypothesis.sublist List.filter_sublist).imp_of_mem
        intro one other oneMember otherMember earlier
        rw [later one oneMember, later other otherMember]
        omega

end Path

namespace Classpath

variable {classpath : Classpath} {path last : Path} {paths : List Path}

/-! ## Entries and the set of them -/

/-- The set and the entries answer alike. -/
theorem contains_eq (classpath : Classpath) (path : Path) :
    classpath.contains path = classpath.entries.any fun entry => entry.same path := by
  have inOrder : classpath.contains path = classpath.entries.any path.same :=
    classpath.recorded.any_eq
  rw [inOrder]
  congr 1
  funext entry
  exact Path.same_comm path entry

theorem distinct (classpath : Classpath) :
    classpath.entries.Pairwise fun left right => left.same right = false := by
  apply classpath.recorded.pairwise classpath.seen.distinct
  intro left right apart
  rw [Path.same_comm, apart]

theorem contains_of_same
    (present : classpath.contains path = true) (same : path.same last = true) :
    classpath.contains last = true := by
  rw [contains_eq] at present ⊢
  obtain ⟨entry, member, sameEntry⟩ := List.any_eq_true.1 present
  exact List.any_eq_true.2 ⟨entry, member, Path.same_trans sameEntry same⟩

/-! ## Adding paths -/

theorem add_of_contains (present : classpath.contains path = true) :
    classpath.add path = (classpath, false) := by
  rw [add, dif_pos present]

theorem add_of_absent (absent : classpath.contains path = false) :
    (classpath.add path).1.entries = classpath.entries ++ [path] ∧
      (classpath.add path).2 = true := by
  rw [add, dif_neg (by rw [absent]; exact Bool.false_ne_true)]
  exact ⟨rfl, rfl⟩

theorem push_of_contains (present : classpath.contains path = true) :
    classpath.push path = classpath := by
  rw [push, add_of_contains present]

theorem entries_push_of_absent (absent : classpath.contains path = false) :
    (classpath.push path).entries = classpath.entries ++ [path] :=
  (add_of_absent absent).1

theorem contains_push_of_absent (absent : classpath.contains path = false) (other : Path) :
    (classpath.push path).contains other = (classpath.contains other || path.same other) := by
  rw [contains_eq, entries_push_of_absent absent, List.any_append, List.any_cons, List.any_nil,
    Bool.or_false, contains_eq]

theorem contains_push_self (classpath : Classpath) (path : Path) :
    (classpath.push path).contains path = true := by
  cases present : classpath.contains path with
  | true =>
      rw [push_of_contains present, present]
  | false =>
      rw [contains_push_of_absent present, Path.same_self, Bool.or_true]

theorem push_push (classpath : Classpath) (path : Path) :
    (classpath.push path).push path = classpath.push path :=
  push_of_contains (contains_push_self classpath path)

theorem countP_same_le_one (classpath : Classpath) (path : Path) :
    classpath.entries.countP path.same ≤ 1 := by
  have distinct := classpath.distinct
  generalize classpath.entries = entries at distinct
  induction entries with
  | nil =>
      exact Nat.zero_le 1
  | cons entry rest inductionHypothesis =>
      obtain ⟨apart, distinctRest⟩ := List.pairwise_cons.1 distinct
      have bound := inductionHypothesis distinctRest
      cases same : path.same entry with
      | false =>
          rw [List.countP_cons_of_neg (by rw [same]; exact Bool.false_ne_true)]
          exact bound
      | true =>
          -- what is the same as the first entry is the same as no later one
          have nowhereElse : rest.countP path.same = 0 := by
            rw [List.countP_eq_zero]
            intro later member sameLater
            have sameEntries := Path.same_trans (Path.same_symm same) sameLater
            rw [apart later member] at sameEntries
            cases sameEntries
          rw [List.countP_cons_of_pos same]
          omega

/-- Adding paths adds the first occurrences of those that are not present. -/
theorem entries_pushAll (classpath : Classpath) (paths : List Path) :
    (classpath.pushAll paths).entries =
      classpath.entries ++
        (Path.firstOccurrences paths).filter fun path => !classpath.contains path := by
  induction paths generalizing classpath with
  | nil =>
      simp [pushAll, Path.firstOccurrences]
  | cons path rest inductionHypothesis =>
      have step : classpath.pushAll (path :: rest) = (classpath.push path).pushAll rest :=
        rfl
      rw [step, inductionHypothesis, Path.firstOccurrences]
      cases present : classpath.contains path with
      | true =>
          rw [push_of_contains present,
            List.filter_cons_of_neg (by rw [present]; exact Bool.false_ne_true),
            List.filter_filter]
          -- what is the same as a path that is present is present itself
          congr 1
          apply List.filter_congr
          intro later _
          cases same : path.same later with
          | false =>
              simp
          | true =>
              simp [contains_of_same present same]
      | false =>
          rw [entries_push_of_absent present,
            List.filter_cons_of_pos (by rw [present]; rfl), List.filter_filter,
            List.append_assoc, List.singleton_append]
          simp only [contains_push_of_absent present, Bool.not_or]

theorem entries_ofList (paths : List Path) :
    (ofList paths).entries = Path.firstOccurrences paths := by
  rw [ofList, entries_pushAll]
  exact List.filter_eq_self.2 fun _ _ => rfl

theorem entries_endingIn (classpath : Classpath) (last : Path) :
    (classpath.endingIn last).entries =
      (classpath.entries.filter fun entry => !entry.same last) ++ [last] := by
  have others :
      (ofList (classpath.entries.filter fun entry => !entry.same last)).entries =
        classpath.entries.filter fun entry => !entry.same last := by
    rw [entries_ofList]
    exact Path.firstOccurrences_eq_self (classpath.distinct.sublist List.filter_sublist)
  have absent :
      (ofList (classpath.entries.filter fun entry => !entry.same last)).contains last = false := by
    rw [contains_eq, others, List.any_eq_false]
    intro entry member
    simpa using (List.mem_filter.1 member).2
  rw [endingIn, entries_push_of_absent absent, others]

/-- A classpath that ends in a path has it nowhere else. -/
theorem countP_endingIn (classpath : Classpath) (last : Path) :
    (classpath.endingIn last).entries.countP last.same = 1 := by
  have nowhereElse :
      (classpath.entries.filter fun entry => !entry.same last).countP last.same = 0 := by
    rw [List.countP_eq_zero]
    intro entry member
    have apart := (List.mem_filter.1 member).2
    rw [Path.same_comm last entry]
    simpa using apart
  rw [entries_endingIn, List.countP_append, nowhereElse, List.countP_singleton,
    if_pos (Path.same_self last)]

end Classpath

end ClojureBuild
