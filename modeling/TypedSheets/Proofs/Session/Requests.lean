import TypedSheets.Proofs.Recall.Ensures
import TypedSheets.Session.Basic

/-!
# Requests to a session

What workers ask of a session: casts, root types, values of enum members and expressions, and the
texts of columns. Every request is a computation of its own; all of them share one memory and take
their steps in any order. What each request ensures by itself therefore holds in every state that
the workers can reach.

## Main definitions

* `Request`, `Session.respond` — a request, and the computation that answers it.
* `Recall.step` — one step of a computation on a memory.
* `Definitions.Reaches` — the states of workers whose sessions share their definitions.

## Main results

* `Definitions.Reaches.ensured` — what every request ensures holds in every state.
* `Definitions.Reaches.answer` — a request that runs on its own leads from state to state.
-/

namespace TypedSheets

/-- A request to a session. -/
inductive Request where
  /-- The value of a cell under an annotation. -/
  | cast (type : String) (cell : Cell)
  /-- The root type of an annotation. -/
  | rootType (type : String)
  /-- The value of an enum member. -/
  | memberValue (enumName member : String)
  /-- The value of an expression over the members of an enum. -/
  | evaluate (enumName text : String)
  /-- The texts that a column holds. -/
  | realizedValues (table column : String)

/-- What a request is answered with. -/
abbrev Request.Answer : Request → Type
  | cast .. => Except Halt Value
  | rootType _ => Except Halt String
  | memberValue .. => Except Halt Int64
  | evaluate .. => Except Halt EnumValue
  | realizedValues .. => List String

/-- The computation that answers a request. -/
def Session.respond (s : Session) : (r : Request) → Recall r.Answer
  | .cast type cell => (s.defs.cast type cell).run
  | .rootType type => (s.schemas.rootType type).run
  | .memberValue enumName member => (s.defs.enums.memberValue enumName member).run
  | .evaluate enumName text => (s.defs.enums.evaluate enumName text).run
  | .realizedValues table column => s.realizedValues table column

/-! ### Steps -/

namespace Recall

variable {α : Type} {I : Condition} {Q : α → Prop}

/-- One step of a computation on a memory. -/
def step : Recall α → Memory → Recall α × Memory
  | done a, m => (done a, m)
  | ask q next, m => (next (m.get? q), m)
  | note q a next, m => (next (m.offer q a).1, (m.offer q a).2)

/-- A step leaves the outcome of a run as it is. -/
theorem run_step (c : Recall α) (m : Memory) : (c.step m).1.run (c.step m).2 = c.run m := by
  cases c <;> rfl

/-- A step on a memory that meets the condition keeps what a computation ensures. -/
theorem Ensures.step {c : Recall α} (h : Ensures I c Q) {m : Memory} (hm : m.Meets I) :
    Ensures I (c.step m).1 Q ∧ (c.step m).2.Meets I := by
  cases c with
  | done a => exact ⟨h, hm⟩
  | ask q next =>
    refine ⟨?_, hm⟩
    change Ensures I (next (m.get? q)) Q
    cases hq : m.get? q with
    | none => exact h.1
    | some a => exact h.2 a (hm q a hq)
  | note q a next =>
    obtain ⟨ha, hm'⟩ := hm.offer h.1
    exact ⟨h.2 _ ha, hm'⟩

end Recall

/-! ### Shared work -/

/-- A request with the computation that is left of it. -/
abbrev Task := (r : Request) × Recall r.Answer

namespace Definitions

/-- The states of workers whose sessions share their definitions: the requests that have been begun,
and the memory. -/
inductive Reaches (d : Definitions) : List Task → Memory → Prop
  /-- Nothing has been asked. -/
  | start : Reaches d [] {}
  /-- A request is begun. -/
  | begin {tasks : List Task} {m : Memory} (s : Session) (r : Request) (hs : s.defs = d)
      (h : Reaches d tasks m) : Reaches d (⟨r, s.respond r⟩ :: tasks) m
  /-- Some request takes a step. -/
  | step {before after : List Task} {m : Memory} {r : Request} {c : Recall r.Answer}
      (h : Reaches d (before ++ ⟨r, c⟩ :: after) m) :
      Reaches d (before ++ ⟨r, (c.step m).1⟩ :: after) (c.step m).2

variable {d : Definitions} {tasks : List Task} {m : Memory}

/-- What every request ensures holds in every state: the memory meets the condition, and each task
ensures what its request does. -/
theorem Reaches.ensured {I : Condition} {P : (r : Request) → r.Answer → Prop}
    (h : d.Reaches tasks m)
    (hP : ∀ s : Session, s.defs = d → ∀ r, Recall.Ensures I (s.respond r) (P r)) :
    m.Meets I ∧ ∀ t ∈ tasks, Recall.Ensures I t.2 (P t.1) := by
  induction h with
  | start =>
    refine ⟨Memory.meets_empty I, ?_⟩
    intro t ht
    cases ht
  | begin s r hs h ih =>
    refine ⟨ih.1, ?_⟩
    intro t ht
    rcases List.mem_cons.1 ht with rfl | ht
    · exact hP s hs r
    · exact ih.2 t ht
  | @step before after m r c h ih =>
    have hc : Recall.Ensures I c (P r) :=
      ih.2 ⟨r, c⟩ (List.mem_append_right before (List.mem_cons_self ..))
    refine ⟨(hc.step ih.1).2, ?_⟩
    intro t ht
    rcases List.mem_append.1 ht with ht | ht
    · exact ih.2 t (List.mem_append_left _ ht)
    · rcases List.mem_cons.1 ht with rfl | ht
      · exact (hc.step ih.1).1
      · exact ih.2 t (List.mem_append_right before (List.mem_cons_of_mem _ ht))

/-- The first of the tasks takes a step. -/
theorem Reaches.step_head {r : Request} {c : Recall r.Answer} (h : d.Reaches (⟨r, c⟩ :: tasks) m) :
    d.Reaches (⟨r, (c.step m).1⟩ :: tasks) (c.step m).2 := by
  have h : d.Reaches ([] ++ ⟨r, c⟩ :: tasks) m := h
  exact h.step

/-- A task that takes all its steps in one go leads from a state to a state. -/
theorem Reaches.run {r : Request} {c : Recall r.Answer} (h : d.Reaches (⟨r, c⟩ :: tasks) m) :
    d.Reaches (⟨r, .done (c.run m).1⟩ :: tasks) (c.run m).2 := by
  induction c generalizing m with
  | done a => exact h
  | ask q next ih => exact ih _ h.step_head
  | note q a next ih => exact ih _ h.step_head

/-- A request that runs on its own leads from a state to the state with its answer. -/
theorem Reaches.answer (h : d.Reaches tasks m) (s : Session) (hs : s.defs = d) (r : Request) :
    d.Reaches (⟨r, .done ((s.respond r).run m).1⟩ :: tasks) ((s.respond r).run m).2 :=
  (h.begin s r hs).run

end Definitions

end TypedSheets
