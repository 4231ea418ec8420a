import ClojureBuild.Proofs.FileTree.Plain
import ClojureBuild.Proofs.Sorting

/-!
# The files below a location

The names that lead to the files below a location, depth first and the entries of a directory by
name.  The list is complete and in strictly ascending order, so it depends on nothing but which files
there are.
-/

namespace ClojureBuild.FileTree

variable {tree : FileTree} {location : Location}

/-! ## The names in a directory -/

theorem mem_names_iff {name : String} :
    name ∈ tree.names location ↔ ∃ entry, tree.find? (location ++ [name]) = some entry := by
  have held :
      (∃ entry, tree.find? (location ++ [name]) = some entry) ↔
        ∃ entry, (location ++ [name], entry) ∈ tree.entries := by
    constructor
    · rintro ⟨entry, found⟩
      exact ⟨entry, mem_entries_of_find? found⟩
    · rintro ⟨entry, member⟩
      cases found : tree.find? (location ++ [name]) with
      | none =>
          have absent := List.lookup_eq_none_iff.1 found _ member
          simp at absent
      | some present =>
          exact ⟨present, rfl⟩
  rw [held, names, (sortBy_perm _).mem_iff]
  simp only [List.mem_filterMap, nameIn?, Prod.exists]
  constructor
  · rintro ⟨place, entry, member, named⟩
    by_cases inside : place.dropLast = location
    · rw [if_pos inside] at named
      obtain ⟨front, split⟩ := List.getLast?_eq_some_iff.1 named
      refine ⟨entry, ?_⟩
      rw [← inside, split, List.dropLast_concat, ← split]
      exact member
    · rw [if_neg inside] at named
      cases named
  · rintro ⟨entry, member⟩
    exact ⟨location ++ [name], entry, member, by simp⟩

theorem names_nodup (wellFormed : tree.WellFormed) (location : Location) :
    (tree.names location).Nodup := by
  rw [names, (sortBy_perm _).nodup_iff]
  have entriesDistinct : tree.entries.Pairwise fun left right => left.1 ≠ right.1 :=
    List.pairwise_map.1 wellFormed.distinct
  refine List.Pairwise.filterMap _ ?_ entriesDistinct
  rintro ⟨left, leftEntry⟩ ⟨right, rightEntry⟩ differ leftName leftNamed rightName rightNamed
  simp only [nameIn?] at leftNamed rightNamed
  split at leftNamed
  · next leftInside =>
      split at rightNamed
      · next rightInside =>
          rintro rfl
          apply differ
          obtain ⟨leftFront, leftSplit⟩ := List.getLast?_eq_some_iff.1 leftNamed
          obtain ⟨rightFront, rightSplit⟩ := List.getLast?_eq_some_iff.1 rightNamed
          rw [leftSplit, List.dropLast_concat] at leftInside
          rw [rightSplit, List.dropLast_concat] at rightInside
          simp only [leftSplit, rightSplit, leftInside, rightInside]
      · cases rightNamed
  · cases leftNamed

theorem names_ascending (wellFormed : tree.WellFormed) (location : Location) :
    (tree.names location).Pairwise (· < ·) := by
  have sorted :
      (tree.names location).Pairwise fun left right => decide (left ≤ right) = true := by
    refine sortBy_pairwise ?_ ?_ _
    · intro left right
      simpa using String.le_total left right
    · intro first second third firstSecond secondThird
      simp only [decide_eq_true_eq] at firstSecond secondThird ⊢
      exact String.le_trans firstSecond secondThird
  refine (sorted.and (names_nodup wellFormed location)).imp ?_
  rintro left right ⟨atMost, differ⟩
  apply String.not_le.1
  intro above
  exact differ (String.le_antisymm (of_decide_eq_true atMost) above)

/-! ## Files below -/

/-- The names that lead to the files below a location, no more of them than the bound allows. -/
def filesBelow (tree : FileTree) : Nat → Location → List (List String)
  | 0, _ => []
  | bound + 1, location =>
      match tree.find? location with
      | some (.file _ _ _) => [[]]
      | some (.directory _) =>
          (tree.names location).flatMap fun name =>
            (tree.filesBelow bound (location ++ [name])).map (name :: ·)
      | _ => []

theorem mem_filesBelow_iff
    (wellFormed : tree.WellFormed) {bound : Nat} {names : List String} :
    names ∈ tree.filesBelow bound location ↔
      names.length < bound ∧ tree.HoldsFile (location ++ names) := by
  induction bound generalizing location names with
  | zero =>
      simp [filesBelow]
  | succ bound inductionHypothesis =>
      rw [filesBelow]
      cases names with
      | nil =>
          cases found : tree.find? location with
          | none =>
              simp [HoldsFile, found]
          | some entry =>
              cases entry with
              | directory modified =>
                  simp [HoldsFile, found]
              | file content modified mode =>
                  simp [HoldsFile, found]
              | link target =>
                  simp [HoldsFile, found]
      | cons head tail =>
          by_cases directory : tree.HoldsDirectory location
          · obtain ⟨modified, found⟩ := directory
            simp only [found, List.mem_flatMap, List.mem_map, List.cons.injEq,
              inductionHypothesis, mem_names_iff, List.append_assoc, List.singleton_append,
              List.length_cons, Nat.add_lt_add_iff_right]
            constructor
            · rintro ⟨name, -, names, held, rfl, rfl⟩
              exact held
            · intro held
              refine ⟨head, ?_, tail, held, rfl, rfl⟩
              obtain ⟨-, content, changed, mode, file⟩ := held
              rw [List.append_cons] at file
              exact wellFormed.present_of_append file
          · have noFile : ¬ tree.HoldsFile (location ++ head :: tail) := by
              intro held
              obtain ⟨content, modified, mode, file⟩ := held
              exact directory
                (wellFormed.holdsDirectory_of_append (List.cons_ne_nil head tail) file)
            cases found : tree.find? location with
            | none =>
                simp [noFile]
            | some entry =>
                cases entry with
                | directory modified =>
                    exact absurd ⟨modified, found⟩ directory
                | file content modified mode =>
                    simp [noFile]
                | link target =>
                    simp [noFile]

theorem filesBelow_ascending
    (wellFormed : tree.WellFormed) (bound : Nat) (location : Location) :
    (tree.filesBelow bound location).Pairwise (· < ·) := by
  induction bound generalizing location with
  | zero =>
      exact List.Pairwise.nil
  | succ bound inductionHypothesis =>
      rw [filesBelow]
      cases tree.find? location with
      | none =>
          exact List.Pairwise.nil
      | some entry =>
          cases entry with
          | directory modified =>
              refine List.pairwise_flatMap.2 ⟨?_, ?_⟩
              · intro name _
                refine List.pairwise_map.2 ((inductionHypothesis (location ++ [name])).imp ?_)
                intro left right precedes
                exact List.cons_lt_cons_iff.2 (Or.inr ⟨rfl, precedes⟩)
              · refine (names_ascending wellFormed location).imp ?_
                intro leftName rightName precedes left leftMember right rightMember
                obtain ⟨leftRest, -, rfl⟩ := List.mem_map.1 leftMember
                obtain ⟨rightRest, -, rfl⟩ := List.mem_map.1 rightMember
                exact List.cons_lt_cons_iff.2 (Or.inl precedes)
          | file content modified mode =>
              exact List.pairwise_singleton _ _
          | link target =>
              exact List.Pairwise.nil

theorem not_before_of_before {left right : List String} (precedes : left < right) :
    ¬ right < left := by
  induction left generalizing right with
  | nil =>
      simp
  | cons head tail inductionHypothesis =>
      cases right with
      | nil =>
          simp at precedes
      | cons other rest =>
          rw [List.cons_lt_cons_iff] at precedes ⊢
          rcases precedes with headsOrdered | ⟨rfl, tailsOrdered⟩
          · rintro (reversed | ⟨rfl, -⟩)
            · exact String.lt_asymm headsOrdered reversed
            · exact String.lt_irrefl _ headsOrdered
          · rintro (reversed | ⟨-, reversed⟩)
            · exact String.lt_irrefl _ reversed
            · exact inductionHypothesis tailsOrdered reversed

/-- The list of files below a location depends only on which files there are. -/
theorem filesBelow_eq_of_holdsFile_iff
    {other : FileTree} (wellFormed : tree.WellFormed) (otherWellFormed : other.WellFormed)
    {bound otherBound : Nat} {otherLocation : Location}
    (enough : ∀ names, tree.HoldsFile (location ++ names) → names.length < bound)
    (otherEnough :
      ∀ names, other.HoldsFile (otherLocation ++ names) → names.length < otherBound)
    (sameFiles :
      ∀ names, tree.HoldsFile (location ++ names) ↔ other.HoldsFile (otherLocation ++ names)) :
    tree.filesBelow bound location = other.filesBelow otherBound otherLocation := by
  refine eq_of_pairwise_of_mem_iff (fun _ _ => not_before_of_before)
    (filesBelow_ascending wellFormed bound location)
    (filesBelow_ascending otherWellFormed otherBound otherLocation) ?_
  intro names
  rw [mem_filesBelow_iff wellFormed, mem_filesBelow_iff otherWellFormed]
  constructor
  · rintro ⟨-, file⟩
    have otherFile := (sameFiles names).1 file
    exact ⟨otherEnough names otherFile, otherFile⟩
  · rintro ⟨-, otherFile⟩
    have file := (sameFiles names).2 otherFile
    exact ⟨enough names file, file⟩

end ClojureBuild.FileTree
