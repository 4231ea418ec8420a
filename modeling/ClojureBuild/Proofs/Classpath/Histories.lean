import Mathlib.Data.List.Forall2
import Mathlib.Data.List.Induction
import Mathlib.Logic.Function.Basic
import ClojureBuild.Proofs.Classpath

/-!
# Histories of classpaths

A program keeps classpaths under names and works on them one operation after the other.  Whatever it
does, each of them has the first occurrences of the paths that have been pushed onto it, in this
order, and the set in which paths are looked up has exactly these members.
-/

namespace ClojureBuild.Classpath

variable {classpath left right : Classpath} {path : Path} {given paths : List Path}

/-! ## Classpaths made of paths -/

/-- What pushing paths onto an empty classpath, in the given order, makes. -/
structure MadeOf (classpath : Classpath) (given : List Path) : Prop where
  entries : classpath.entries = Path.firstOccurrences given
  distinct : classpath.entries.Pairwise fun left right => left.same right = false
  seen : classpath.seen.members.Perm classpath.entries
  contains : ∀ path,
    classpath.contains path = true ↔ ∃ entry ∈ classpath.entries, entry.same path = true
  adds : ∀ path,
    (classpath.add path).2 = true ↔ ∀ entry ∈ classpath.entries, entry.same path = false

theorem contains_iff :
    classpath.contains path = true ↔ ∃ entry ∈ classpath.entries, entry.same path = true := by
  rw [contains_eq, List.any_eq_true]

theorem added_iff :
    (classpath.add path).2 = true ↔ ∀ entry ∈ classpath.entries, entry.same path = false := by
  cases present : classpath.contains path with
  | true =>
      obtain ⟨entry, member, same⟩ := contains_iff.1 present
      rw [add_of_contains present]
      simp only [Bool.false_eq_true, false_iff]
      intro apart
      rw [apart entry member] at same
      cases same
  | false =>
      simp only [(add_of_absent present).2, true_iff]
      rw [contains_eq, List.any_eq_false] at present
      intro entry member
      simpa using present entry member

theorem MadeOf.of_entries (entries : classpath.entries = Path.firstOccurrences given) :
    MadeOf classpath given where
  entries := entries
  distinct := classpath.distinct
  seen := classpath.recorded
  contains := fun _ => contains_iff
  adds := fun _ => added_iff

theorem madeOf_empty : MadeOf empty [] :=
  .of_entries rfl

theorem madeOf_ofList (paths : List Path) : MadeOf (ofList paths) paths :=
  .of_entries (entries_ofList paths)

/-- What more paths add depends on the entries alone, not on how the classpath has come about. -/
theorem MadeOf.pushAll (made : MadeOf classpath given) (paths : List Path) :
    MadeOf (classpath.pushAll paths) (given ++ paths) := by
  have twin : classpath.entries = (ofList given).entries := by
    rw [made.entries, entries_ofList]
  apply of_entries
  calc (classpath.pushAll paths).entries
      = ((ofList given).pushAll paths).entries := by
        simp only [entries_pushAll, contains_eq, twin]
    _ = (ofList (given ++ paths)).entries := by
        rw [ofList, ofList, Classpath.pushAll, Classpath.pushAll, Classpath.pushAll,
          List.foldl_append]
    _ = Path.firstOccurrences (given ++ paths) := entries_ofList _

theorem MadeOf.push (made : MadeOf classpath given) (path : Path) :
    MadeOf (classpath.push path) (given ++ [path]) :=
  made.pushAll [path]

/-- Classpaths are the same when their entries are, one by one: the sets follow the entries. -/
theorem same_iff :
    left.same right = true ↔
      List.Forall₂ (fun leftEntry rightEntry => leftEntry.same rightEntry = true)
        left.entries right.entries := by
  have sameComponents :
      left.entries.map Path.components = right.entries.map Path.components ↔
        List.Forall₂ (fun leftEntry rightEntry => leftEntry.same rightEntry = true)
          left.entries right.entries := by
    simp only [← List.forall₂_eq_eq_eq, List.forall₂_map_left_iff, List.forall₂_map_right_iff,
      Path.same_iff]
  rw [same, Bool.and_eq_true, beq_iff_eq, sameComponents, and_iff_left_of_imp]
  intro matched
  rw [PathSet.same, Bool.and_eq_true, beq_iff_eq, List.all_eq_true]
  constructor
  · rw [left.recorded.length_eq, right.recorded.length_eq, matched.length_eq]
  · intro path member
    have inRight : path.components ∈ right.entries.map Path.components := by
      rw [← sameComponents.2 matched]
      exact List.mem_map_of_mem (left.recorded.mem_iff.1 member)
    obtain ⟨entry, entryMember, sameEntry⟩ := List.mem_map.1 inRight
    exact contains_iff.2 ⟨entry, entryMember, Path.same_iff.2 sameEntry⟩

/-! ## Operations of a program -/

/-- An operation on classpaths that are kept under names. -/
inductive Operation (Name : Type) where
  | push (name : Name) (path : Path)
  | extend (name : Name) (paths : List Path)
  | collect (name : Name) (paths : List Path)
  | withEntry (original copy : Name) (path : Path)

section Histories

variable {Name : Type} [DecidableEq Name]

namespace Operation

/-- The classpaths after an operation. -/
def perform (held : Name → Classpath) : Operation Name → Name → Classpath
  | .push name path => Function.update held name ((held name).push path)
  | .extend name paths => Function.update held name ((held name).pushAll paths)
  | .collect name paths => Function.update held name (ofList paths)
  | .withEntry original copy path => Function.update held copy ((held original).push path)

/-- The paths that have been pushed onto each classpath after an operation. -/
def record (given : Name → List Path) : Operation Name → Name → List Path
  | .push name path => Function.update given name (given name ++ [path])
  | .extend name paths => Function.update given name (given name ++ paths)
  | .collect name paths => Function.update given name paths
  | .withEntry original copy path => Function.update given copy (given original ++ [path])

end Operation

/-- The classpaths after some operations.  All of them are empty at first. -/
def heldAfter (operations : List (Operation Name)) : Name → Classpath :=
  operations.foldl Operation.perform fun _ => empty

/-- The paths that some operations have pushed onto each classpath. -/
def givenBy (operations : List (Operation Name)) : Name → List Path :=
  operations.foldl Operation.record fun _ => []

theorem heldAfter_concat (operations : List (Operation Name)) (operation : Operation Name) :
    heldAfter (operations ++ [operation]) = operation.perform (heldAfter operations) :=
  List.foldl_append

theorem givenBy_concat (operations : List (Operation Name)) (operation : Operation Name) :
    givenBy (operations ++ [operation]) = operation.record (givenBy operations) :=
  List.foldl_append

theorem madeOf_update {held : Name → Classpath} {given : Name → List Path}
    (made : ∀ name, MadeOf (held name) (given name)) {changed : Name} {now : Classpath}
    {nowGiven : List Path} (madeNow : MadeOf now nowGiven) (name : Name) :
    MadeOf (Function.update held changed now name) (Function.update given changed nowGiven name) := by
  by_cases isChanged : name = changed
  · subst isChanged
    rw [Function.update_self, Function.update_self]
    exact madeNow
  · rw [Function.update_of_ne isChanged, Function.update_of_ne isChanged]
    exact made name

/-- One operation leaves every classpath made of what has been pushed onto it. -/
theorem madeOf_perform {held : Name → Classpath} {given : Name → List Path}
    (made : ∀ name, MadeOf (held name) (given name)) (operation : Operation Name) (name : Name) :
    MadeOf (operation.perform held name) (operation.record given name) := by
  cases operation with
  | push changed path =>
      exact madeOf_update made ((made changed).push path) name
  | extend changed paths =>
      exact madeOf_update made ((made changed).pushAll paths) name
  | collect changed paths =>
      exact madeOf_update made (madeOf_ofList paths) name
  | withEntry original copy path =>
      exact madeOf_update made ((made original).push path) name

theorem madeOf_heldAfter (operations : List (Operation Name)) (name : Name) :
    MadeOf (heldAfter operations name) (givenBy operations name) := by
  induction operations using List.reverseRecOn generalizing name with
  | nil =>
      exact madeOf_empty
  | append_singleton earlier operation inductionHypothesis =>
      rw [heldAfter_concat, givenBy_concat]
      exact madeOf_perform inductionHypothesis operation name

/-- After any operations, each classpath has the first occurrences of what has been pushed onto it,
and paths are looked up in a set that has the same members.  A copy with one more entry leaves the
original as it is, and two classpaths are the same when their entries are. -/
theorem histories_keep_first_occurrences (operations : List (Operation Name)) :
    (∀ name, MadeOf (heldAfter operations name) (givenBy operations name)) ∧
      (∀ original copy path, original ≠ copy →
        heldAfter (operations ++ [.withEntry original copy path]) original =
            heldAfter operations original ∧
          heldAfter (operations ++ [.withEntry original copy path]) copy =
            (heldAfter operations original).push path) ∧
        ∀ left right : Classpath, left.same right = true ↔
          List.Forall₂ (fun leftEntry rightEntry => leftEntry.same rightEntry = true)
            left.entries right.entries := by
  refine ⟨madeOf_heldAfter operations, ?_, fun _ _ => same_iff⟩
  intro original copy path apart
  rw [heldAfter_concat]
  exact ⟨Function.update_of_ne apart _ _, Function.update_self _ _ _⟩

end Histories

end ClojureBuild.Classpath
