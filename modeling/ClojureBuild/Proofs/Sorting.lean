import ClojureBuild.Sorting

/-!
# Sorted lists

Sorting by insertion keeps the elements and puts them in ascending order.  A list in strictly
ascending order is determined by its elements.  Where repeats are dropped, every element is still
represented by one that is the same; from a sorted list, by the first one that was given.
-/

namespace ClojureBuild

variable {α : Type} {atMost : α → α → Bool}

theorem insertOrdered_perm (new : α) (items : List α) :
    (insertOrdered atMost new items).Perm (new :: items) := by
  induction items with
  | nil =>
      rfl
  | cons head tail inductionHypothesis =>
      rw [insertOrdered]
      split
      · rfl
      · exact (inductionHypothesis.cons head).trans (List.Perm.swap new head tail)

theorem sortBy_perm (items : List α) : (sortBy atMost items).Perm items := by
  induction items with
  | nil =>
      rfl
  | cons head tail inductionHypothesis =>
      exact (insertOrdered_perm head _).trans (inductionHypothesis.cons head)

theorem insertOrdered_pairwise
    (total : ∀ left right, atMost left right = true ∨ atMost right left = true)
    (transitive : ∀ first second third,
      atMost first second = true → atMost second third = true → atMost first third = true)
    (new : α) {items : List α}
    (ascending : items.Pairwise fun left right => atMost left right = true) :
    (insertOrdered atMost new items).Pairwise fun left right => atMost left right = true := by
  induction items with
  | nil =>
      simp [insertOrdered]
  | cons head tail inductionHypothesis =>
      obtain ⟨headFirst, tailAscending⟩ := List.pairwise_cons.1 ascending
      rw [insertOrdered]
      by_cases goesHere : atMost new head = true
      · rw [if_pos goesHere]
        refine List.pairwise_cons.2 ⟨?_, ascending⟩
        intro item member
        rcases List.mem_cons.1 member with rfl | later
        · exact goesHere
        · exact transitive new head item goesHere (headFirst item later)
      · rw [if_neg goesHere]
        refine List.pairwise_cons.2 ⟨?_, inductionHypothesis tailAscending⟩
        intro item member
        rcases List.mem_cons.1 ((insertOrdered_perm new tail).mem_iff.1 member) with rfl | later
        · exact (total item head).resolve_left goesHere
        · exact headFirst item later

theorem sortBy_pairwise
    (total : ∀ left right, atMost left right = true ∨ atMost right left = true)
    (transitive : ∀ first second third,
      atMost first second = true → atMost second third = true → atMost first third = true)
    (items : List α) :
    (sortBy atMost items).Pairwise fun left right => atMost left right = true := by
  induction items with
  | nil =>
      exact List.Pairwise.nil
  | cons head tail inductionHypothesis =>
      exact insertOrdered_pairwise total transitive head inductionHypothesis

theorem sortBy_eq_self {items : List α}
    (ascending : items.Pairwise fun left right => atMost left right = true) :
    sortBy atMost items = items := by
  induction items with
  | nil =>
      rfl
  | cons head tail inductionHypothesis =>
      obtain ⟨headFirst, tailAscending⟩ := List.pairwise_cons.1 ascending
      rw [sortBy, inductionHypothesis tailAscending]
      cases tail with
      | nil =>
          rfl
      | cons next rest =>
          rw [insertOrdered, if_pos (headFirst next List.mem_cons_self)]

/-- Two lists in the same strict order that have the same elements are equal. -/
theorem eq_of_pairwise_of_mem_iff
    {before : α → α → Prop} (asymmetric : ∀ left right, before left right → ¬ before right left)
    {first second : List α}
    (firstOrdered : first.Pairwise before) (secondOrdered : second.Pairwise before)
    (sameMembers : ∀ item, item ∈ first ↔ item ∈ second) :
    first = second := by
  have distinct : ∀ {items : List α}, items.Pairwise before → items.Nodup := by
    intro items ordered
    refine ordered.imp ?_
    rintro left right precedes rfl
    exact asymmetric left left precedes precedes
  have rearranged : first.Perm second :=
    (List.perm_ext_iff_of_nodup (distinct firstOrdered) (distinct secondOrdered)).2 sameMembers
  refine rearranged.eq_of_pairwise ?_ firstOrdered secondOrdered
  intro left right _ _ precedes follows
  exact absurd follows (asymmetric left right precedes)

/-! ## Dropping repeats -/

section Repeats

variable {same : α → α → Bool} {item last : α} {items : List α}

theorem mem_of_mem_dropRepeatsAfter (member : item ∈ dropRepeatsAfter same last items) :
    item ∈ items := by
  induction items generalizing last with
  | nil =>
      cases member
  | cons head tail inductionHypothesis =>
      rw [dropRepeatsAfter] at member
      split at member
      · exact List.mem_cons_of_mem head (inductionHypothesis member)
      · rcases List.mem_cons.1 member with rfl | inTail
        · exact List.mem_cons_self
        · exact List.mem_cons_of_mem head (inductionHypothesis inTail)

theorem mem_of_mem_dropRepeats (member : item ∈ dropRepeats same items) : item ∈ items := by
  cases items with
  | nil =>
      cases member
  | cons head tail =>
      rcases List.mem_cons.1 member with rfl | inTail
      · exact List.mem_cons_self
      · exact List.mem_cons_of_mem head (mem_of_mem_dropRepeatsAfter inTail)

theorem exists_same_of_dropRepeatsAfter
    (reflexive : ∀ item, same item item = true) (last : α) (member : item ∈ items) :
    same last item = true ∨ ∃ kept ∈ dropRepeatsAfter same last items, same kept item = true := by
  induction items generalizing last with
  | nil =>
      cases member
  | cons head tail inductionHypothesis =>
      rw [dropRepeatsAfter]
      by_cases repeated : same last head = true
      · rw [if_pos repeated]
        rcases List.mem_cons.1 member with rfl | inTail
        · exact Or.inl repeated
        · exact inductionHypothesis last inTail
      · rw [if_neg repeated]
        right
        rcases List.mem_cons.1 member with rfl | inTail
        · exact ⟨item, List.mem_cons_self, reflexive item⟩
        · rcases inductionHypothesis head inTail with isHead | ⟨kept, inKept, isSame⟩
          · exact ⟨head, List.mem_cons_self, isHead⟩
          · exact ⟨kept, List.mem_cons_of_mem head inKept, isSame⟩

theorem exists_same_of_mem_dropRepeats
    (reflexive : ∀ item, same item item = true) (member : item ∈ items) :
    ∃ kept ∈ dropRepeats same items, same kept item = true := by
  cases items with
  | nil =>
      cases member
  | cons head tail =>
      rcases List.mem_cons.1 member with rfl | inTail
      · exact ⟨item, List.mem_cons_self, reflexive item⟩
      · rcases exists_same_of_dropRepeatsAfter reflexive head inTail with
          isHead | ⟨kept, inKept, isSame⟩
        · exact ⟨head, List.mem_cons_self, isHead⟩
        · exact ⟨kept, List.mem_cons_of_mem head inKept, isSame⟩

theorem dropRepeatsAfter_eq_self
    (distinct : (last :: items).Pairwise fun left right => same left right = false) :
    dropRepeatsAfter same last items = items := by
  induction items generalizing last with
  | nil =>
      rfl
  | cons head tail inductionHypothesis =>
      obtain ⟨lastDiffers, tailDistinct⟩ := List.pairwise_cons.1 distinct
      have differs := lastDiffers head List.mem_cons_self
      rw [dropRepeatsAfter, if_neg (Bool.eq_false_iff.1 differs), inductionHypothesis tailDistinct]

theorem dropRepeats_eq_self
    (distinct : items.Pairwise fun left right => same left right = false) :
    dropRepeats same items = items := by
  cases items with
  | nil =>
      rfl
  | cons head tail =>
      rw [dropRepeats, dropRepeatsAfter_eq_self distinct]

end Repeats

/-! ## The first of equal elements -/

section Firsts

variable {same : α → α → Bool} {item last : α} {items first second : List α}
variable (total : ∀ left right, atMost left right = true ∨ atMost right left = true)
variable (transitive : ∀ first second third,
  atMost first second = true → atMost second third = true → atMost first third = true)
variable (same_iff : ∀ left right,
  same left right = true ↔ atMost left right = true ∧ atMost right left = true)

include transitive same_iff in
/-- Of equal elements the one that is inserted comes first. -/
theorem find?_insertOrdered (item new : α) (items : List α) :
    (insertOrdered atMost new items).find? (same item) = (new :: items).find? (same item) := by
  induction items with
  | nil =>
      rfl
  | cons head tail inductionHypothesis =>
      rw [insertOrdered]
      split
      · rfl
      · next later =>
          rw [List.find?_cons, inductionHypothesis]
          cases isHead : same item head with
          | false =>
              simp only [List.find?_cons, isHead]
          | true =>
              have notNew : same item new = false := by
                rw [← Bool.not_eq_true, same_iff]
                intro isNew
                exact later (transitive new item head isNew.2 ((same_iff item head).1 isHead).1)
              simp only [List.find?_cons, notNew, isHead]

include transitive same_iff in
theorem find?_sortBy (item : α) (items : List α) :
    (sortBy atMost items).find? (same item) = items.find? (same item) := by
  induction items with
  | nil =>
      rfl
  | cons head tail inductionHypothesis =>
      rw [sortBy, find?_insertOrdered transitive same_iff, List.find?_cons, List.find?_cons,
        inductionHypothesis]

include transitive same_iff in
theorem same_of_same_of_same {left middle right : α} (forth : same left middle = true)
    (onward : same middle right = true) : same left right = true := by
  rw [same_iff] at forth onward ⊢
  exact ⟨transitive left middle right forth.1 onward.1,
    transitive right middle left onward.2 forth.2⟩

include same_iff in
theorem same_symm {left right : α} (forth : same left right = true) :
    same right left = true := by
  rw [same_iff] at forth ⊢
  exact forth.symm

include transitive same_iff in
theorem find?_dropRepeatsAfter (differs : same item last = false) :
    (dropRepeatsAfter same last items).find? (same item) = items.find? (same item) := by
  induction items generalizing last with
  | nil =>
      rfl
  | cons head tail inductionHypothesis =>
      rw [dropRepeatsAfter]
      split
      · next repeated =>
          have notHead : same item head = false := by
            rw [← Bool.not_eq_true]
            intro isHead
            have isLast := same_of_same_of_same transitive same_iff isHead
              (same_symm same_iff repeated)
            rw [isLast] at differs
            cases differs
          rw [inductionHypothesis differs, List.find?_cons, notHead]
      · rw [List.find?_cons, List.find?_cons]
        cases notHead : same item head with
        | true =>
            rfl
        | false =>
            exact inductionHypothesis notHead

include transitive same_iff in
theorem find?_dropRepeats (item : α) (items : List α) :
    (dropRepeats same items).find? (same item) = items.find? (same item) := by
  cases items with
  | nil =>
      rfl
  | cons head tail =>
      rw [dropRepeats, List.find?_cons, List.find?_cons]
      cases notHead : same item head with
      | true =>
          rfl
      | false =>
          exact find?_dropRepeatsAfter transitive same_iff notHead

include transitive same_iff in
/-- What is left of a sorted list is in strictly ascending order. -/
theorem dropRepeatsAfter_strict
    (ascending : (last :: items).Pairwise fun left right => atMost left right = true) :
    (last :: dropRepeatsAfter same last items).Pairwise
      fun left right => atMost left right = true ∧ same left right = false := by
  induction items generalizing last with
  | nil =>
      exact List.pairwise_singleton _ last
  | cons head tail inductionHypothesis =>
      obtain ⟨lastFirst, tailAscending⟩ := List.pairwise_cons.1 ascending
      rw [dropRepeatsAfter]
      split
      · apply inductionHypothesis
        exact ascending.sublist ((List.sublist_cons_self head tail).cons_cons last)
      · next differs =>
          have inner := inductionHypothesis tailAscending
          refine List.pairwise_cons.2 ⟨?_, inner⟩
          intro item member
          have inItems : item ∈ head :: tail := by
            cases List.mem_cons.1 member with
            | inl isHead =>
                rw [isHead]
                exact List.mem_cons_self
            | inr inTail =>
                exact List.mem_cons_of_mem head (mem_of_mem_dropRepeatsAfter inTail)
          refine ⟨lastFirst item inItems, ?_⟩
          rw [← Bool.not_eq_true, same_iff]
          intro isSame
          -- `head` lies between `last` and `item`, so it would repeat `last` as well
          have between : atMost head last = true := by
            cases List.mem_cons.1 inItems with
            | inl isHead =>
                rw [← isHead]
                exact isSame.2
            | inr inTail =>
                exact transitive head item last ((List.pairwise_cons.1 tailAscending).1 item inTail)
                  isSame.2
          exact differs ((same_iff last head).2 ⟨lastFirst head List.mem_cons_self, between⟩)

include total transitive same_iff in
theorem dropRepeats_sortBy_strict (items : List α) :
    (dropRepeats same (sortBy atMost items)).Pairwise
      fun left right => atMost left right = true ∧ same left right = false := by
  have ascending := sortBy_pairwise total transitive items
  cases sorted : sortBy atMost items with
  | nil =>
      exact List.Pairwise.nil
  | cons head tail =>
      rw [sorted] at ascending
      exact dropRepeatsAfter_strict transitive same_iff ascending

include total transitive same_iff in
/-- Sorting and dropping repeats keeps of equal elements the one that comes first. -/
theorem mem_dropRepeats_sortBy_iff :
    item ∈ dropRepeats same (sortBy atMost items) ↔ items.find? (same item) = some item := by
  rw [← find?_sortBy transitive same_iff, ← find?_dropRepeats transitive same_iff]
  have strict := dropRepeats_sortBy_strict total transitive same_iff items
  have reflexive : same item item = true := by
    rw [same_iff, and_self]
    exact (total item item).elim id id
  constructor
  · intro member
    obtain ⟨front, rest, split⟩ := List.append_of_mem member
    rw [split] at strict ⊢
    refine List.find?_eq_some_iff_append.2 ⟨reflexive, front, rest, rfl, ?_⟩
    intro other inFront
    have differs := ((List.pairwise_append.1 strict).2.2 other inFront item List.mem_cons_self).2
    rw [Bool.not_eq_true', ← Bool.not_eq_true]
    intro isSame
    rw [same_symm same_iff isSame] at differs
    cases differs
  · exact List.mem_of_find?_eq_some

include total transitive same_iff in
/-- Lists whose equal elements start with the same ones are the same once they are sorted and
repeats are dropped. -/
theorem dropRepeats_sortBy_eq
    (firsts : ∀ item, first.find? (same item) = second.find? (same item)) :
    dropRepeats same (sortBy atMost first) = dropRepeats same (sortBy atMost second) := by
  apply eq_of_pairwise_of_mem_iff _ (dropRepeats_sortBy_strict total transitive same_iff first)
    (dropRepeats_sortBy_strict total transitive same_iff second)
  · intro item
    rw [mem_dropRepeats_sortBy_iff total transitive same_iff,
      mem_dropRepeats_sortBy_iff total transitive same_iff, firsts]
  · intro left right before after
    have isSame := (same_iff left right).2 ⟨before.1, after.1⟩
    rw [before.2] at isSame
    cases isSame

end Firsts

end ClojureBuild
