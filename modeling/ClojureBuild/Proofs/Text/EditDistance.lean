import ClojureBuild.Text.EditDistance
import Mathlib.Order.Bounds.Basic

/-!
# Distances and edits

The distance between two texts is the least number of single-byte insertions, deletions and
substitutions that turn the bytes of one into those of the other.  A near miss is the first
candidate at the least distance, if that is one or two.
-/

namespace ClojureBuild.Text

/-! ## Edits -/

section Edits

variable {α : Type}

/-- One letter is inserted, deleted or replaced by another. -/
inductive Edit : List α → List α → Prop where
  | insertion (front : List α) (letter : α) (back : List α) :
      Edit (front ++ back) (front ++ letter :: back)
  | deletion (front : List α) (letter : α) (back : List α) :
      Edit (front ++ letter :: back) (front ++ back)
  | substitution (front : List α) (old new : α) (back : List α) :
      Edit (front ++ old :: back) (front ++ new :: back)

/-- A number of edits that lead from one list of letters to another. -/
inductive Edits : Nat → List α → List α → Prop where
  | none (letters : List α) : Edits 0 letters letters
  | next {count : Nat} {first second third : List α} :
      Edit first second → Edits count second third → Edits (count + 1) first third

variable {first second third : List α} {count more : Nat}

theorem Edit.symm (edit : Edit first second) : Edit second first := by
  cases edit with
  | insertion front letter back =>
      exact .deletion front letter back
  | deletion front letter back =>
      exact .insertion front letter back
  | substitution front old new back =>
      exact .substitution front new old back

theorem Edit.cons (edit : Edit first second) (letter : α) :
    Edit (letter :: first) (letter :: second) := by
  cases edit with
  | insertion front inserted back =>
      exact .insertion (letter :: front) inserted back
  | deletion front deleted back =>
      exact .deletion (letter :: front) deleted back
  | substitution front old new back =>
      exact .substitution (letter :: front) old new back

theorem Edit.reverse (edit : Edit first second) : Edit first.reverse second.reverse := by
  cases edit with
  | insertion front letter back =>
      simpa using Edit.insertion back.reverse letter front.reverse
  | deletion front letter back =>
      simpa using Edit.deletion back.reverse letter front.reverse
  | substitution front old new back =>
      simpa using Edit.substitution back.reverse old new front.reverse

theorem Edits.single (edit : Edit first second) : Edits 1 first second :=
  .next edit (.none second)

theorem Edits.trans (edits : Edits count first second) (others : Edits more second third) :
    Edits (count + more) first third := by
  induction edits with
  | none letters =>
      rwa [Nat.zero_add]
  | next edit _ inductionHypothesis =>
      rw [Nat.add_right_comm]
      exact .next edit (inductionHypothesis others)

theorem Edits.symm (edits : Edits count first second) : Edits count second first := by
  induction edits with
  | none letters =>
      exact .none letters
  | next edit _ inductionHypothesis =>
      exact inductionHypothesis.trans (.single edit.symm)

theorem Edits.cons (edits : Edits count first second) (letter : α) :
    Edits count (letter :: first) (letter :: second) := by
  induction edits with
  | none letters =>
      exact .none (letter :: letters)
  | next edit _ inductionHypothesis =>
      exact .next (edit.cons letter) inductionHypothesis

theorem Edits.reverse (edits : Edits count first second) :
    Edits count first.reverse second.reverse := by
  induction edits with
  | none letters =>
      exact .none letters.reverse
  | next edit _ inductionHypothesis =>
      exact .next edit.reverse inductionHypothesis

theorem edits_reverse_iff : Edits count first.reverse second.reverse ↔ Edits count first second :=
  ⟨fun edits => by simpa using edits.reverse, Edits.reverse⟩

theorem edits_zero_iff : Edits 0 first second ↔ first = second := by
  constructor
  · rintro ⟨⟩
    rfl
  · rintro rfl
    exact .none first

theorem Edits.min (edits : Edits count first second) (others : Edits more first second) :
    Edits (min count more) first second := by
  rcases Nat.le_total count more with fewer | fewer
  · rwa [Nat.min_eq_left fewer]
  · rwa [Nat.min_eq_right fewer]

theorem edits_nil_left (letters : List α) : Edits letters.length [] letters := by
  induction letters with
  | nil =>
      exact .none []
  | cons letter rest inductionHypothesis =>
      exact .next (.insertion [] letter []) (inductionHypothesis.cons letter)

end Edits

/-! ## The recursion behind the rows -/

section Alignment

variable {α : Type} [DecidableEq α]

/-- The cost of putting one letter in the place of another. -/
def substitutionCost (letter goal : α) : Nat :=
  if letter = goal then 0 else 1

theorem substitutionCost_le (letter goal : α) : substitutionCost letter goal ≤ 1 := by
  unfold substitutionCost
  split <;> omega

/-- The least cost of an alignment of two lists, by their first letters: one of them is left out or
both are put beside each other. -/
def alignmentCost : List α → List α → Nat
  | [], goals => goals.length
  | letters, [] => letters.length
  | letter :: letters, goal :: goals =>
      min (min (alignmentCost letters (goal :: goals) + 1) (alignmentCost (letter :: letters) goals + 1))
        (alignmentCost letters goals + substitutionCost letter goal)
termination_by letters goals => letters.length + goals.length

theorem alignmentCost_nil_left (goals : List α) : alignmentCost [] goals = goals.length := by
  rw [alignmentCost]

theorem alignmentCost_nil_right (letters : List α) : alignmentCost letters [] = letters.length := by
  cases letters with
  | nil =>
      rw [alignmentCost]
  | cons letter rest =>
      rw [alignmentCost]
      exact List.cons_ne_nil letter rest

theorem alignmentCost_cons (letter goal : α) (letters goals : List α) :
    alignmentCost (letter :: letters) (goal :: goals) =
      min (min (alignmentCost letters (goal :: goals) + 1)
          (alignmentCost (letter :: letters) goals + 1))
        (alignmentCost letters goals + substitutionCost letter goal) := by
  rw [alignmentCost]

/-- An alignment is carried out by as many edits as it costs. -/
theorem edits_alignmentCost (letters goals : List α) :
    Edits (alignmentCost letters goals) letters goals := by
  induction letters generalizing goals with
  | nil =>
      rw [alignmentCost_nil_left]
      exact edits_nil_left goals
  | cons letter letters deleting =>
      induction goals with
      | nil =>
          rw [alignmentCost_nil_right]
          exact (edits_nil_left (letter :: letters)).symm
      | cons goal goals inserting =>
          have deletion : Edits (alignmentCost letters (goal :: goals) + 1) (letter :: letters)
              (goal :: goals) :=
            .next (.deletion [] letter letters) (deleting (goal :: goals))
          have insertion : Edits (alignmentCost (letter :: letters) goals + 1) (letter :: letters)
              (goal :: goals) :=
            (inserting.trans (.single (.insertion [] goal goals)))
          have substitution : Edits (alignmentCost letters goals + substitutionCost letter goal)
              (letter :: letters) (goal :: goals) := by
            unfold substitutionCost
            split
            next same =>
              rw [same]
              exact (deleting goals).cons goal
            next =>
              exact ((deleting goals).cons letter).trans
                (.single (.substitution [] letter goal goals))
          rw [alignmentCost_cons]
          exact (deletion.min insertion).min substitution

theorem alignmentCost_self (letters : List α) : alignmentCost letters letters = 0 := by
  induction letters with
  | nil =>
      exact alignmentCost_nil_left []
  | cons letter letters inductionHypothesis =>
      rw [alignmentCost_cons, inductionHypothesis, substitutionCost, if_pos rfl]
      exact Nat.min_zero _

/-! ### One edit changes a cost by at most one -/

/-- To reach one list costs at most one edit more than to reach another, from wherever. -/
def Near (goals others : List α) : Prop :=
  ∀ letters, alignmentCost letters goals ≤ alignmentCost letters others + 1

theorem alignmentCost_deletion_le (letter : α) (letters goals : List α) :
    alignmentCost (letter :: letters) goals ≤ alignmentCost letters goals + 1 := by
  cases goals with
  | nil =>
      simp only [alignmentCost_nil_right, List.length_cons, Nat.le_refl]
  | cons goal goals =>
      rw [alignmentCost_cons]
      omega

theorem near_insertion (goal : α) (goals : List α) : Near (goal :: goals) goals := by
  intro letters
  cases letters with
  | nil =>
      simp only [alignmentCost_nil_left, List.length_cons, Nat.le_refl]
  | cons letter letters =>
      rw [alignmentCost_cons]
      omega

theorem near_deletion (goal : α) (goals : List α) : Near goals (goal :: goals) := by
  intro letters
  induction letters with
  | nil =>
      simp only [alignmentCost_nil_left, List.length_cons]
      omega
  | cons letter letters inductionHypothesis =>
      have deleted := alignmentCost_deletion_le letter letters goals
      rw [alignmentCost_cons]
      omega

theorem near_substitution (old new : α) (goals : List α) :
    Near (new :: goals) (old :: goals) := by
  intro letters
  induction letters with
  | nil =>
      simp only [alignmentCost_nil_left, List.length_cons]
      omega
  | cons letter letters inductionHypothesis =>
      have cost := substitutionCost_le letter new
      rw [alignmentCost_cons, alignmentCost_cons]
      omega

theorem Near.cons {goals others : List α} (near : Near goals others) (goal : α) :
    Near (goal :: goals) (goal :: others) := by
  intro letters
  induction letters with
  | nil =>
      have lengths := near []
      simp only [alignmentCost_nil_left, List.length_cons] at lengths ⊢
      omega
  | cons letter letters inductionHypothesis =>
      have whole := near (letter :: letters)
      have rest := near letters
      rw [alignmentCost_cons, alignmentCost_cons]
      omega

theorem Near.append {goals others : List α} (near : Near goals others) (front : List α) :
    Near (front ++ goals) (front ++ others) := by
  induction front with
  | nil =>
      exact near
  | cons goal front inductionHypothesis =>
      exact inductionHypothesis.cons goal

theorem Edit.near {first second : List α} (edit : Edit first second) : Near second first := by
  cases edit with
  | insertion front letter back =>
      exact (near_insertion letter back).append front
  | deletion front letter back =>
      exact (near_deletion letter back).append front
  | substitution front old new back =>
      exact (near_substitution old new back).append front

/-- No fewer edits than an alignment costs lead from one list to another. -/
theorem Edits.alignmentCost_le {first second : List α} {count : Nat}
    (edits : Edits count first second) : alignmentCost first second ≤ count := by
  -- The edits are taken one by one from the end of the list that they start from.
  suffices reached : ∀ letters, alignmentCost letters second ≤ alignmentCost letters first + count by
    simpa only [alignmentCost_self, Nat.zero_add] using reached first
  induction edits with
  | none letters =>
      exact fun _ => Nat.le_refl _
  | next edit _ inductionHypothesis =>
      intro letters
      have one := edit.near letters
      have others := inductionHypothesis letters
      omega

theorem isLeast_alignmentCost (letters goals : List α) :
    IsLeast {count | Edits count letters goals} (alignmentCost letters goals) :=
  ⟨edits_alignmentCost letters goals, fun _ edits => Edits.alignmentCost_le edits⟩

end Alignment

/-! ## The rows -/

/-- The cells of a row from a place on: the costs of aligning what has been read of the first list
with longer and longer leading parts of the second.  Both leading parts are kept backwards. -/
def cells (seen passed : List UInt8) : List UInt8 → List Nat
  | [] => [alignmentCost seen passed]
  | goal :: goals => alignmentCost seen passed :: cells seen (goal :: passed) goals

theorem cells_eq_cons (seen passed goals : List UInt8) :
    ∃ rest, cells seen passed goals = alignmentCost seen passed :: rest := by
  cases goals with
  | nil =>
      exact ⟨[], rfl⟩
  | cons goal goals =>
      exact ⟨cells seen (goal :: passed) goals, rfl⟩

theorem firstRow_eq_cells (goals : List UInt8) : firstRow goals = cells [] [] goals := by
  suffices shifted : ∀ passed : List UInt8,
      List.range' passed.length (goals.length + 1) = cells [] passed goals by
    rw [firstRow, List.range_eq_range']
    exact shifted []
  induction goals with
  | nil =>
      intro passed
      rw [cells, alignmentCost_nil_left]
      rfl
  | cons goal goals inductionHypothesis =>
      intro passed
      rw [List.length_cons, List.range'_succ, cells, alignmentCost_nil_left,
        ← inductionHypothesis (goal :: passed)]
      rfl

theorem fillRow_cells (letter : UInt8) (seen passed goals : List UInt8) :
    fillRow letter (alignmentCost (letter :: seen) passed) goals (cells seen passed goals) =
      cells (letter :: seen) passed goals := by
  induction goals generalizing passed with
  | nil =>
      rfl
  | cons goal goals inductionHypothesis =>
      obtain ⟨rest, row⟩ := cells_eq_cons seen (goal :: passed) goals
      have cell := alignmentCost_cons letter goal seen passed
      rw [substitutionCost] at cell
      rw [cells, row, fillRow, cells, ← inductionHypothesis (goal :: passed), row, cell]

theorem nextRow_cells (letter : UInt8) (seen goals : List UInt8) :
    nextRow goals (cells seen [] goals) letter = cells (letter :: seen) [] goals := by
  obtain ⟨rest, row⟩ := cells_eq_cons seen [] goals
  have first : (cells seen [] goals).headD 0 + 1 = alignmentCost (letter :: seen) [] := by
    rw [row, List.headD_cons, alignmentCost_nil_right, alignmentCost_nil_right, List.length_cons]
  rw [nextRow, first, fillRow_cells]

theorem foldl_nextRow_cells (letters seen goals : List UInt8) :
    letters.foldl (nextRow goals) (cells seen [] goals) =
      cells (letters.reverse ++ seen) [] goals := by
  induction letters generalizing seen with
  | nil =>
      rfl
  | cons letter letters inductionHypothesis =>
      rw [List.foldl_cons, nextRow_cells, inductionHypothesis, List.reverse_cons,
        List.append_assoc, List.singleton_append]

theorem getLastD_cells (seen passed goals : List UInt8) (fallback : Nat) :
    (cells seen passed goals).getLastD fallback = alignmentCost seen (goals.reverse ++ passed) := by
  induction goals generalizing passed fallback with
  | nil =>
      rfl
  | cons goal goals inductionHypothesis =>
      rw [cells, List.getLastD_cons, inductionHypothesis, List.reverse_cons, List.append_assoc,
        List.singleton_append]

/-- The last cell of the last row is the cost of aligning both lists, read backwards. -/
theorem byteDistance_eq (letters goals : List UInt8) :
    byteDistance letters goals = alignmentCost letters.reverse goals.reverse := by
  rw [byteDistance, firstRow_eq_cells, foldl_nextRow_cells, getLastD_cells, List.append_nil,
    List.append_nil]

theorem isLeast_byteDistance (letters goals : List UInt8) :
    IsLeast {count | Edits count letters goals} (byteDistance letters goals) := by
  rw [byteDistance_eq]
  simpa only [edits_reverse_iff] using isLeast_alignmentCost letters.reverse goals.reverse

/-! ## Distances between texts -/

/-- The UTF-8 bytes of a text. -/
def bytes (text : String) : List UInt8 :=
  text.toUTF8.data.toList

theorem bytes_injective {left right : String} (same : bytes left = bytes right) : left = right := by
  have sameBytes : left.toUTF8 = right.toUTF8 := ByteArray.ext (Array.toList_inj.mp same)
  exact String.toByteArray_inj.mp sameBytes

theorem isLeast_editDistance (left right : String) :
    IsLeast {count | Edits count (bytes left) (bytes right)} (editDistance left right) :=
  isLeast_byteDistance (bytes left) (bytes right)

/-! ### A metric -/

theorem editDistance_comm (left right : String) : editDistance left right = editDistance right left := by
  have fewest := isLeast_editDistance left right
  have swapped : {count | Edits count (bytes left) (bytes right)} =
      {count | Edits count (bytes right) (bytes left)} :=
    Set.ext fun _ => ⟨Edits.symm, Edits.symm⟩
  rw [swapped] at fewest
  exact fewest.unique (isLeast_editDistance right left)

theorem editDistance_eq_zero_iff (left right : String) :
    editDistance left right = 0 ↔ left = right := by
  have fewest := isLeast_editDistance left right
  constructor
  · intro zero
    have none := fewest.1
    rw [zero] at none
    exact bytes_injective (edits_zero_iff.mp none)
  · rintro rfl
    exact Nat.le_zero.mp (fewest.2 (.none (bytes left)))

theorem editDistance_triangle (left middle right : String) :
    editDistance left right ≤ editDistance left middle + editDistance middle right :=
  (isLeast_editDistance left right).2 <|
    Edits.trans (isLeast_editDistance left middle).1 (isLeast_editDistance middle right).1

/-! ## Near misses -/

/-- The distances of a text from candidates. -/
def distances (text : String) (candidates : List String) : Set Nat :=
  {distance | ∃ candidate ∈ candidates, editDistance text candidate = distance}

variable {text found : String} {candidates : List String} {least : Nat}

theorem isLeast_distances_cons_iff {candidate : String} :
    IsLeast (distances text (candidate :: candidates)) least ↔
      least ∈ distances text (candidate :: candidates) ∧ least ≤ editDistance text candidate ∧
        ∀ other ∈ candidates, least ≤ editDistance text other := by
  refine and_congr_right fun _ => ?_
  constructor
  · intro below
    exact ⟨below ⟨candidate, List.mem_cons_self, rfl⟩, fun other member =>
      below ⟨other, List.mem_cons_of_mem candidate member, rfl⟩⟩
  · rintro ⟨first, others⟩ _ ⟨other, member, rfl⟩
    rcases List.mem_cons.mp member with rfl | inRest
    · exact first
    · exact others other inRest

theorem nearest_eq_none_iff : nearest text candidates = none ↔ candidates = [] := by
  cases candidates with
  | nil =>
      exact iff_of_true rfl rfl
  | cons candidate rest =>
      rw [nearest]
      cases nearest text rest with
      | none =>
          simp
      | some best =>
          dsimp only
          split <;> simp

/-- What is kept as the nearest is the first candidate at the least distance. -/
theorem isLeast_of_nearest (kept : nearest text candidates = some (found, least)) :
    IsLeast (distances text candidates) least ∧
      candidates.find? (fun candidate => editDistance text candidate = least) = some found := by
  induction candidates generalizing found least with
  | nil =>
      cases kept
  | cons candidate rest inductionHypothesis =>
      rw [nearest] at kept
      rw [isLeast_distances_cons_iff, List.find?_cons]
      cases best : nearest text rest with
      | none =>
          rw [best] at kept
          cases kept
          rw [nearest_eq_none_iff.mp best]
          exact ⟨⟨⟨candidate, List.mem_cons_self, rfl⟩, Nat.le_refl _, by simp⟩, by simp⟩
      | some held =>
          obtain ⟨other, otherDistance⟩ := held
          obtain ⟨⟨⟨nearestOther, member, attained⟩, below⟩, first⟩ := inductionHypothesis best
          have notNearer : ∀ one ∈ rest, otherDistance ≤ editDistance text one :=
            fun one inRest => below ⟨one, inRest, rfl⟩
          rw [best] at kept
          dsimp only at kept
          split at kept
          next nearer =>
            cases kept
            refine ⟨⟨⟨nearestOther, List.mem_cons_of_mem candidate member, attained⟩,
              Nat.le_of_lt nearer, notNearer⟩, ?_⟩
            rw [decide_eq_false (Nat.ne_of_gt nearer)]
            exact first
          next notNearerOther =>
            cases kept
            have least := Nat.le_of_not_lt notNearerOther
            refine ⟨⟨⟨candidate, List.mem_cons_self, rfl⟩, Nat.le_refl _, fun one inRest =>
              Nat.le_trans least (notNearer one inRest)⟩, ?_⟩
            rw [decide_eq_true rfl]

theorem nearest_eq_some_iff :
    nearest text candidates = some (found, least) ↔
      IsLeast (distances text candidates) least ∧
        candidates.find? (fun candidate => editDistance text candidate = least) = some found := by
  refine ⟨isLeast_of_nearest, fun ⟨isLeast, first⟩ => ?_⟩
  cases kept : nearest text candidates with
  | none =>
      rw [nearest_eq_none_iff.mp kept] at first
      cases first
  | some held =>
      obtain ⟨other, otherLeast⟩ := held
      obtain ⟨alsoLeast, alsoFirst⟩ := isLeast_of_nearest kept
      have same := isLeast.unique alsoLeast
      subst same
      rw [alsoFirst] at first
      cases first
      rfl

theorem nearMiss?_eq_some_iff :
    nearMiss? text candidates = some found ↔
      ∃ least, (least = 1 ∨ least = 2) ∧ IsLeast (distances text candidates) least ∧
        candidates.find? (fun candidate => editDistance text candidate = least) = some found := by
  rw [nearMiss?]
  simp only [← nearest_eq_some_iff]
  cases nearest text candidates with
  | none =>
      simp
  | some held =>
      obtain ⟨candidate, distance⟩ := held
      have inRange : 0 < distance ∧ distance ≤ 2 ↔ distance = 1 ∨ distance = 2 := by
        omega
      simp only [inRange, Option.some.injEq, Prod.mk.injEq]
      split
      next near =>
        constructor
        · rintro ⟨⟩
          exact ⟨distance, near, rfl, rfl⟩
        · rintro ⟨_, _, rfl, _⟩
          rfl
      next far =>
        constructor
        · rintro ⟨⟩
        · rintro ⟨_, near, _, rfl⟩
          exact absurd near far

theorem nearMiss?_eq_none_iff :
    nearMiss? text candidates = none ↔
      ¬∃ least, (least = 1 ∨ least = 2) ∧ IsLeast (distances text candidates) least := by
  rw [← not_iff_not, not_not, Option.eq_none_iff_forall_ne_some]
  push Not
  simp only [nearMiss?_eq_some_iff]
  constructor
  · rintro ⟨_, least, near, isLeast, _⟩
    exact ⟨least, near, isLeast⟩
  · rintro ⟨least, near, isLeast⟩
    obtain ⟨candidate, member, attained⟩ := isLeast.1
    have isFound : (candidates.find? fun candidate => editDistance text candidate = least).isSome :=
      List.find?_isSome.mpr ⟨candidate, member, decide_eq_true attained⟩
    obtain ⟨first, isFirst⟩ := Option.isSome_iff_exists.mp isFound
    exact ⟨first, least, near, isLeast, isFirst⟩

theorem nearMiss?_eq_none_of_mem (member : text ∈ candidates) : nearMiss? text candidates = none := by
  rw [nearMiss?_eq_none_iff]
  rintro ⟨least, near, isLeast⟩
  have zero := isLeast.2 ⟨text, member, (editDistance_eq_zero_iff text text).mpr rfl⟩
  omega

/-- The distance of two texts is the least number of edits between their bytes, which makes it a
metric.  A near miss is found exactly if the least distance over the candidates is one or two, and is
the first candidate at that distance. -/
theorem near_misses_are_nearest :
    (∀ left right,
      IsLeast {count | Edits count (bytes left) (bytes right)} (editDistance left right)) ∧
    (∀ left right, editDistance left right = editDistance right left) ∧
    (∀ left right, editDistance left right = 0 ↔ left = right) ∧
    (∀ left middle right,
      editDistance left right ≤ editDistance left middle + editDistance middle right) ∧
    (∀ text candidates found, nearMiss? text candidates = some found ↔
      ∃ least, (least = 1 ∨ least = 2) ∧ IsLeast (distances text candidates) least ∧
        candidates.find? (fun candidate => editDistance text candidate = least) = some found) ∧
    (∀ text candidates, nearMiss? text candidates = none ↔
      ¬∃ least, (least = 1 ∨ least = 2) ∧ IsLeast (distances text candidates) least) ∧
    (∀ candidates, ∀ text ∈ candidates, nearMiss? text candidates = none) :=
  ⟨isLeast_editDistance, editDistance_comm, editDistance_eq_zero_iff, editDistance_triangle,
    fun _ _ _ => nearMiss?_eq_some_iff, fun _ _ => nearMiss?_eq_none_iff,
    fun _ _ => nearMiss?_eq_none_of_mem⟩

/-- Of two candidates at the same distance the first one counts. -/
example : nearMiss? "targets" ["java", "target", "targetss"] = some "target" := by
  decide +kernel

end ClojureBuild.Text
