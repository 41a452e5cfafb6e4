import Std.Data.HashMap
import TypedSheets.Cell
import TypedSheets.Failure
import TypedSheets.Value

/-!
# Remembering computations

A session computes many things more than once: the root type of an annotation, the cast of a cell,
the value of an enum member, the values a column realizes. Such a computation asks the memory of
the session first and notes what it has computed. Computations are trees of these two kinds of
steps, so that the same computation can be run with any memory, or without one.

Several workers may share a memory, and two of them may find an answer to one question. Of two casts
of a cell, and of two readings of a column, the one noted first counts for both workers; root types
and enum members are written over.

## Main definitions

* `Query`, `Query.Answer` — what can be remembered.
* `Memory` — what is remembered.
* `Memory.offer` — an answer is noted, unless an earlier one counts.
* `Recall` — a computation that asks and notes.
* `Recall.run` — runs a computation with a memory.
* `Recall.fresh` — runs a computation that remembers nothing.
* `Halt`, `Attempt` — computations that may fail.
* `Attempt.result` — the failure of an attempt as a result.
-/

namespace TypedSheets

/-- A question whose answer can be remembered. -/
inductive Query where
  /-- The root type of an annotation. -/
  | root (type : String)
  /-- The value of a cell under an annotation. -/
  | cast (type : String) (cell : Cell)
  /-- The value of an enum member. -/
  | member (enumName member : String)
  /-- The texts of the values of a column. -/
  | realized (table column : String)
deriving DecidableEq

/-- The type of the answers to a question. -/
abbrev Query.Answer : Query → Type
  | root _ => String
  | cast .. => Value
  | member .. => Int64
  | realized .. => List String

/-- Whether the answer noted first counts, and not the latest. -/
def Query.firstCounts : Query → Bool
  | cast .. | realized .. => true
  | root _ | member .. => false

/-- What a session remembers. -/
structure Memory where
  /-- Root types by annotation. -/
  roots : Std.HashMap String String := {}
  /-- Values by annotation and cell. -/
  casts : Std.HashMap (String × Cell) Value := {}
  /-- Values of enum members. -/
  members : Std.HashMap (String × String) Int64 := {}
  /-- Texts of the values of columns. -/
  realized : Std.HashMap (String × String) (List String) := {}
deriving Inhabited

namespace Memory

/-- The remembered answer to a question. -/
def get? (m : Memory) : (q : Query) → Option q.Answer
  | .root type => m.roots[type]?
  | .cast type cell => m.casts[(type, cell)]?
  | .member enumName member => m.members[(enumName, member)]?
  | .realized table column => m.realized[(table, column)]?

/-- Remembers an answer. -/
def note (m : Memory) : (q : Query) → q.Answer → Memory
  | .root type, a => { m with roots := m.roots.insert type a }
  | .cast type cell, a => { m with casts := m.casts.insert (type, cell) a }
  | .member enumName member, a => { m with members := m.members.insert (enumName, member) a }
  | .realized table column, a => { m with realized := m.realized.insert (table, column) a }

/-- The answer just noted is remembered. -/
@[simp] theorem get?_note_self (m : Memory) (q : Query) (a : q.Answer) :
    (m.note q a).get? q = some a := by
  cases q <;> simp [note, get?]

/-- Noting the answer to one question leaves the others alone. -/
theorem get?_note_of_ne (m : Memory) {q q' : Query} (a : q.Answer) (hne : q ≠ q') :
    (m.note q a).get? q' = m.get? q' := by
  cases q <;> cases q' <;> simp_all [note, get?, Std.HashMap.getElem?_insert]

/-- Notes an answer, unless an earlier one counts, and gives the answer that counts. -/
def offer (m : Memory) (q : Query) (a : q.Answer) : q.Answer × Memory :=
  match q.firstCounts, m.get? q with
  | true, some b => (b, m)
  | _, _ => (a, m.note q a)

end Memory

/-- A computation that asks what is remembered and notes what it has found. It goes on with the
answer that counts. -/
inductive Recall (α : Type) where
  | done (a : α)
  | ask (q : Query) (next : Option q.Answer → Recall α)
  | note (q : Query) (a : q.Answer) (next : q.Answer → Recall α)

namespace Recall

variable {α β : Type}

/-- Goes on with the result of a computation. -/
def bind : Recall α → (α → Recall β) → Recall β
  | done a, f => f a
  | ask q next, f => ask q fun a => (next a).bind f
  | note q a next, f => note q a fun b => (next b).bind f

instance : Monad Recall where
  pure := done
  bind := bind

/-- Runs a computation with a memory, and gives the memory afterwards. -/
def run : Recall α → Memory → α × Memory
  | done a, m => (a, m)
  | ask q next, m => (next (m.get? q)).run m
  | note q a next, m => (next (m.offer q a).1).run (m.offer q a).2

/-- The result of a computation that finds nothing remembered. -/
def fresh : Recall α → α
  | done a => a
  | ask _ next => (next none).fresh
  | note _ a next => (next a).fresh

@[simp] theorem fresh_pure (a : α) : (pure a : Recall α).fresh = a := rfl

@[simp] theorem fresh_bind (c : Recall α) (f : α → Recall β) :
    (c >>= f).fresh = (f c.fresh).fresh := by
  show (c.bind f).fresh = _
  induction c with
  | done a => rfl
  | ask q next ih => exact ih none
  | note q a next ih => exact ih a

/-- Binding after a finished computation goes on at once. -/
theorem pure_bind' (a : α) (f : α → Recall β) : (pure a >>= f) = f a := rfl

theorem bind_done (c : Recall α) : c.bind done = c := by
  induction c with
  | done a => rfl
  | ask q next ih => simp only [bind, ih]
  | note q a next ih => simp only [bind, ih]

theorem bind_bind {γ : Type} (c : Recall α) (f : α → Recall β) (g : β → Recall γ) :
    (c.bind f).bind g = c.bind fun a => (f a).bind g := by
  induction c with
  | done a => rfl
  | ask q next ih => simp only [bind, ih]
  | note q a next ih => simp only [bind, ih]

instance : LawfulMonad Recall :=
  LawfulMonad.mk' Recall
    (fun c => bind_done c) (fun _ _ => rfl) (fun c f g => bind_bind c f g)

end Recall

/-- Why a computation stops without a result. -/
inductive Halt where
  /-- What was asked for is wrong. -/
  | failure (f : Failure)
  /-- A sum of spans left its bounds. -/
  | overflow
  /-- The definitions lead to each other without end. -/
  | endless
deriving DecidableEq, Inhabited

/-- A computation with a memory that may stop without a result. -/
abbrev Attempt (α : Type) := ExceptT Halt Recall α

namespace Attempt

/-- Stops with a failure. -/
def fail {α : Type} (f : Failure) : Attempt α :=
  throw (.failure f)

/-- A result that is known, or the failure that takes its place. -/
def ofExcept {α : Type} (r : Except Failure α) : Attempt α :=
  match r with
  | .ok a => pure a
  | .error f => fail f

/-- The remembered answer to a question, or else the result of a computation, which is noted. -/
def remember (q : Query) (compute : Attempt q.Answer) : Attempt q.Answer :=
  ExceptT.mk <| .ask q fun
    | some a => .done (.ok a)
    | none => compute.run.bind fun
      | .ok a => .note q a fun b => .done (.ok b)
      | .error h => .done (.error h)

/-- The result of an attempt, or the failure that took its place. -/
def result {α : Type} (a : Attempt α) : Attempt (Except Failure α) :=
  ExceptT.mk <| a.run.bind fun r => .done <| match r with
    | .ok a => .ok (.ok a)
    | .error (.failure f) => .ok (.error f)
    | .error h => .error h

/-- What is right among results. -/
def successes {ε α : Type} (rs : List (Except ε α)) : List α :=
  rs.filterMap Except.toOption

/-- What is wrong among results. -/
def failures {ε α : Type} (rs : List (Except ε α)) : List ε :=
  rs.filterMap fun
    | .ok _ => none
    | .error e => some e

end Attempt

end TypedSheets
