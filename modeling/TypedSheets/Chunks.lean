/-!
# Chunks

A list cut into pieces of a size, the last of which may be shorter. Work is handed out in chunks,
and the results put together again do not depend on where the cuts were.

## Main definitions

* `chunksOf` — the chunks of a list.

## Main results

* `flatten_chunksOf` — the chunks put together are the list.
-/

namespace TypedSheets

/-- The chunks of a list; a size of zero counts as one. -/
def chunksOf {α : Type} (size : Nat) : List α → List (List α)
  | [] => []
  | a :: l => (a :: l.take (size - 1)) :: chunksOf size (l.drop (size - 1))
termination_by l => l.length
decreasing_by simp only [List.length_drop, List.length_cons]; omega

/-- The chunks put together are the list. -/
theorem flatten_chunksOf {α : Type} (size : Nat) (l : List α) :
    (chunksOf size l).flatten = l := by
  fun_induction chunksOf size l with
  | case1 => rfl
  | case2 a l ih => rw [List.flatten_cons, ih, List.cons_append, List.take_append_drop]

end TypedSheets
