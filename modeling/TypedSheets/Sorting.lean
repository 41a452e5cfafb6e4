/-!
# Sorting

A stable insertion sort. It is a structural recursion, so that closed runs of a compilation, which
sorts sheets and rows on its way, can be evaluated.

## Main definitions

* `insertBy` — an element put into a sorted list.
* `sortBy` — a list sorted; elements that are equal in the order keep theirs.

## Main results

* `sortBy_perm` — sorting permutes.
-/

namespace TypedSheets

variable {α : Type} (le : α → α → Bool)

/-- Puts an element in front of the first one that it may come before. -/
def insertBy (a : α) : List α → List α
  | [] => [a]
  | b :: l => if le a b then a :: b :: l else b :: insertBy a l

/-- The elements in order, from the last one on put in front of those equal to them. -/
def sortBy : List α → List α
  | [] => []
  | a :: l => insertBy le a (sortBy l)

theorem insertBy_perm (a : α) (l : List α) : (insertBy le a l).Perm (a :: l) := by
  induction l with
  | nil => exact .refl _
  | cons b l ih =>
    rw [insertBy]
    split
    · exact .refl _
    · exact (ih.cons b).trans (.swap a b l)

/-- Sorting permutes. -/
theorem sortBy_perm (l : List α) : (sortBy le l).Perm l := by
  induction l with
  | nil => exact .refl _
  | cons a l ih => exact (insertBy_perm le a (sortBy le l)).trans (ih.cons a)

variable {le}

theorem mem_sortBy {a : α} {l : List α} : a ∈ sortBy le l ↔ a ∈ l :=
  (sortBy_perm le l).mem_iff

end TypedSheets
