/-!
# Walks without return

A walk over finitely many places that stops when it comes back to a place cannot go on for ever:
each step leaves fewer places that it has not visited.

## Main definitions

* `Walk.remaining` — the number of places not visited yet.

## Main results

* `Walk.remaining_lt` — a step to a new place leaves fewer of them.
-/

namespace TypedSheets.Walk

variable {α : Type} [DecidableEq α]

/-- The number of places that a walk has not visited. -/
def remaining (all visited : List α) : Nat :=
  all.countP fun a => !visited.contains a

/-- Visiting a new place leaves fewer places. -/
theorem remaining_lt {all visited visited' : List α} {a : α} (hmem : a ∈ all) (hnew : a ∉ visited)
    (hsub : ∀ x ∈ visited, x ∈ visited') (hnow : a ∈ visited') :
    remaining all visited' < remaining all visited := by
  have hle (l : List α) : remaining l visited' ≤ remaining l visited :=
    List.countP_mono_left fun x _ hx => by
      simp only [Bool.not_eq_true', List.contains_eq_mem, decide_eq_false_iff_not] at hx ⊢
      exact fun h => hx (hsub x h)
  induction all with
  | nil => simp at hmem
  | cons b l ih =>
    unfold remaining
    rw [List.countP_cons, List.countP_cons]
    by_cases hb : b = a
    · subst hb
      have hl := hle l
      unfold remaining at hl
      have h0 : visited'.contains b = true := List.contains_iff_mem.2 hnow
      have h1 : visited.contains b = false := by simpa using hnew
      simp only [h0, h1, Bool.not_true, Bool.not_false, if_true, Bool.false_eq_true, if_false]
      omega
    · have := ih ((List.mem_cons.1 hmem).resolve_left (Ne.symm hb))
      unfold remaining at this
      have hb' : (if (!visited'.contains b) = true then 1 else 0) ≤
          (if (!visited.contains b) = true then 1 else 0) := by
        by_cases h : b ∈ visited
        · simp [h, hsub b h]
        · simp [h]; split <;> omega
      omega

end TypedSheets.Walk
