/-!
# Sorting by insertion

A list is sorted by inserting its elements one after the other, from the last to the first.  An
element goes in front of those it does not exceed, so equal elements keep their order.
-/

namespace ClojureBuild

variable {α : Type}

/-- Put an element in front of the first one that it does not exceed. -/
def insertOrdered (atMost : α → α → Bool) (new : α) : List α → List α
  | [] => [new]
  | head :: tail =>
      if atMost new head then
        new :: head :: tail
      else
        head :: insertOrdered atMost new tail

/-- The elements in ascending order, equal ones in their given order. -/
def sortBy (atMost : α → α → Bool) : List α → List α
  | [] => []
  | head :: tail => insertOrdered atMost head (sortBy atMost tail)

/-- The elements after `last` without those that repeat the one kept before them. -/
def dropRepeatsAfter (same : α → α → Bool) (last : α) : List α → List α
  | [] => []
  | head :: tail =>
      if same last head then
        dropRepeatsAfter same last tail
      else
        head :: dropRepeatsAfter same head tail

/-- The first element of every run of equal ones. -/
def dropRepeats (same : α → α → Bool) : List α → List α
  | [] => []
  | head :: tail => head :: dropRepeatsAfter same head tail

end ClojureBuild
