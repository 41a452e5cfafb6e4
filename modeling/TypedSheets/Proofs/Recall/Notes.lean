import TypedSheets.Session.Memory

/-!
# Runs with a list of notes

A memory is a hash table, and what hash tables hold is not found by evaluation alone. A list of
notes answers the same questions and is read from its start, so that a closed run with it is a
finite evaluation. Its result is that of the run with a memory.

## Main definitions

* `Notes`, `Notes.get?` — noted answers, the latest first.
* `Recall.runOn` — the result of a computation that starts with a list of notes.

## Main results

* `Recall.fst_run` — a run with a memory has the result of a run with notes that answer alike.
* `Recall.fst_run_empty` — a run that starts with nothing has the result of one without notes.
-/

namespace TypedSheets

/-- Noted answers, the latest first. -/
abbrev Notes := List ((q : Query) × q.Answer)

/-- The latest answer to a question. -/
def Notes.get? : Notes → (q : Query) → Option q.Answer
  | [], _ => none
  | ⟨q', a⟩ :: notes, q => if h : q' = q then some (h ▸ a) else Notes.get? notes q

/-- Notes an answer, unless an earlier one counts, and gives the answer that counts. -/
def Notes.offer (notes : Notes) (q : Query) (a : q.Answer) : q.Answer × Notes :=
  match q.firstCounts, notes.get? q with
  | true, some b => (b, notes)
  | _, _ => (a, ⟨q, a⟩ :: notes)

/-- A memory and a list of notes that answer every question alike. -/
def Memory.Agrees (m : Memory) (notes : Notes) : Prop :=
  ∀ q, m.get? q = notes.get? q

theorem Memory.Agrees.note {m : Memory} {notes : Notes} (h : m.Agrees notes) (q : Query)
    (a : q.Answer) : (m.note q a).Agrees (⟨q, a⟩ :: notes) := by
  intro q'
  unfold Notes.get?
  split
  · rename_i hq
    subst hq
    exact Memory.get?_note_self m q a
  · rename_i hq
    rw [Memory.get?_note_of_ne m a hq]
    exact h q'

theorem Memory.Agrees.offer {m : Memory} {notes : Notes} (h : m.Agrees notes) (q : Query)
    (a : q.Answer) :
    (m.offer q a).1 = (notes.offer q a).1 ∧ (m.offer q a).2.Agrees (notes.offer q a).2 := by
  unfold Memory.offer Notes.offer
  rw [h q]
  cases q.firstCounts with
  | true =>
    cases notes.get? q with
    | none => exact ⟨rfl, h.note q a⟩
    | some b => exact ⟨rfl, h⟩
  | false => exact ⟨rfl, h.note q a⟩

namespace Recall

variable {α : Type}

/-- The result of a computation that starts with a list of notes. -/
def runOn : Recall α → Notes → α
  | done a, _ => a
  | ask q next, notes => (next (notes.get? q)).runOn notes
  | note q a next, notes => (next (notes.offer q a).1).runOn (notes.offer q a).2

/-- A run with a memory has the result of a run with notes that answer alike. -/
theorem fst_run (c : Recall α) {m : Memory} {notes : Notes} (h : m.Agrees notes) :
    (c.run m).1 = c.runOn notes := by
  induction c generalizing m notes with
  | done a => rfl
  | ask q next ih =>
    simp only [run, runOn, h q]
    exact ih _ h
  | note q a next ih =>
    obtain ⟨ha, hm⟩ := h.offer q a
    simp only [run, runOn, ← ha]
    exact ih _ hm

/-- A run that starts with nothing has the result of one without notes. -/
theorem fst_run_empty (c : Recall α) : (c.run {}).1 = c.runOn [] :=
  c.fst_run fun q => by cases q <;> simp [Memory.get?, Notes.get?]

end Recall

end TypedSheets
