import TypedSheets.Cell
import TypedSheets.Proofs.Text.Splitting

/-!
# Elements of containers

A container text is split at `&`, `|` and line ends, but not inside parentheses. Elements are found
again however they are put together, as long as their marks are inside their own parentheses; and
the elements of any text, balanced or not, are found again behind bars.

## Main definitions

* `containerMarks` — the marks between the elements of a container, and where they separate.

## Main results

* `splitElements_eq` — what a container text is split into, as elements of a text.
* `infix_splitElements` — the elements of a container text stand in it.
* `elements_found_again` — splitting what has been joined, and joining what has been split.
-/

namespace TypedSheets

/-- The marks between the elements of a container. They separate where no more parentheses are
opened than closed. -/
def containerMarks : Separation where
  marks c := c = '&' || c = '|' || c = '\n'
  level d := d ≤ 0
  marks_open := rfl
  marks_close := rfl
  level_zero := rfl
  level_pos d h := decide_eq_false (by omega)

theorem splitPieces_eq (text : List Char) :
    splitPieces [] 0 text = containerMarks.pieces 0 text :=
  Separation.eq_pieces_of_step (fun _ _ => rfl) (fun _ _ _ _ => rfl) 0 text

/-- The elements of a container text are its elements between the marks of containers. -/
theorem splitElements_eq (text : List Char) :
    splitElements text = containerMarks.elements 0 text := by
  rw [splitElements, splitPieces_eq]
  rfl

/-- The elements of a container text stand in it. -/
theorem infix_splitElements {text item : List Char} (h : item ∈ splitElements text) :
    item <:+: text := by
  rw [splitElements_eq] at h
  exact Separation.infix_elements h

/-- **Elements of a container are found again.** Balanced elements with all their marks inside
parentheses are found again whatever marks, with whatever blanks around them, are put between them.
And the elements of any text, balanced or not, are found again when they are joined by bars. -/
theorem elements_found_again :
    (∀ items text, containerMarks.Joined items text →
      (∀ item ∈ items, containerMarks.IsElement item) → splitElements text = items) ∧
    ∀ text, splitElements (['|'].intercalate (splitElements text)) = splitElements text := by
  constructor
  · intro items text hjoined hitems
    rw [splitElements_eq]
    exact Separation.elements_of_joined hjoined (Separation.stays_of_isElement hitems)
  · intro text
    simp only [splitElements_eq]
    exact Separation.elements_intercalate_elements rfl (by simp) 0 text

/-- Elements with marks in nested parentheses, an ampersand with blanks and a line end around it,
and a bar right behind an element. -/
theorem elements_found_again_nested :
    let items := ["a(b|(c&d))".toList, "e".toList, "(\n)".toList]
    let text := "a(b|(c&d)) &\n e|(\n)".toList
    containerMarks.Joined items text ∧ (∀ item ∈ items, containerMarks.IsElement item) ∧
      splitElements text = items := by
  intro items text
  have hjoined : containerMarks.Joined items text :=
    .cons "a(b|(c&d))".toList [' '] '&' ['\n', ' '] (List.all_eq_true.1 rfl) rfl
      (List.all_eq_true.1 rfl) (by simp) <|
      .cons "e".toList [] '|' [] (by simp) rfl (by simp) (by simp) <|
        .single "(\n)".toList
  have hitems : ∀ item ∈ items, containerMarks.IsElement item := by decide +kernel
  exact ⟨hjoined, hitems, elements_found_again.1 items text hjoined hitems⟩

end TypedSheets
