import Mathlib.Logic.Hydra
import TypedSheets.Proofs.Pool
import TypedSheets.Sorting

/-!
# The workers of a pool

The items of a pool lie in a queue, and workers that share one memory take them from there. Each
worker keeps the outcomes of the items it has finished to itself; when all have left, the outcomes
are put together and sorted by the positions of the items. The workers take their turns in any
order.

## Main definitions

* `Worked` — what a call of a work function leaves.
* `Pool.Turn`, `Pool.Step` — what one worker does next, and the pool with it.
* `Pool.start`, `Pool.State.Finished`, `Pool.State.result` — how a run begins and what it comes to.

## Main results

* `Pool.exists_step` — until all workers have left, one of them has a turn.
* `Pool.wellFounded_step` — no run goes on forever, whatever the order of the turns.
-/

namespace TypedSheets

variable {ι ω : Type}

/-- How a call of a work function ends. -/
inductive Ending where
  /-- With the outputs it has pushed. -/
  | finished
  /-- With diagnostics against what was worked on. -/
  | rejected (diagnostics : List Diagnostic)
  /-- With a fault of the work itself. -/
  | fault (text : String)
  /-- Unexpectedly, with a message. -/
  | panic (text : String)

/-- What a call of a work function leaves: the outputs it has pushed, and how it has ended. -/
structure Worked (ω : Type) where
  /-- The outputs, in order. -/
  pushed : List ω
  /-- How the call has ended. -/
  ending : Ending

/-- What is kept of a call: of one that failed, nothing that it had pushed. -/
def Worked.outcome (c : Worked ω) : Outcome ω :=
  match c.ending with
  | .finished => .success c.pushed
  | .rejected diagnostics => .rejected diagnostics
  | .fault text => .fault text
  | .panic text => .panic text

namespace Pool

/-! ### Turns -/

/-- What a worker has in hand. -/
inductive Hand (ι ω : Type) where
  /-- Nothing: it is about to look into the queue. -/
  | empty
  /-- The item at a position, just taken from the queue. -/
  | taken (position : Nat) (item : ι)
  /-- The item at a position, with what is left of the work on it. -/
  | working (position : Nat) (rest : Recall (Worked ω))
  /-- The worker has left. -/
  | gone

/-- A worker with the outcomes of the items that it has finished. -/
structure Worker (ι ω : Type) where
  /-- What it has in hand. -/
  hand : Hand ι ω
  /-- The outcomes by the positions of the items, in the order in which they were finished. -/
  finished : List (Nat × Outcome ω)

/-- What the workers share. -/
structure Shared (ι : Type) where
  /-- The items that are left, with their positions. -/
  queue : List (Nat × ι)
  /-- Whether a halting pool has seen a failure. -/
  halted : Bool
  /-- The memory of the session. -/
  memory : Memory

/-- A turn of one worker. An item is taken before the flag is looked at, so that a worker which
then leaves takes the item with it. -/
inductive Turn (work : ι → Recall (Worked ω)) (halting : Bool) :
    Shared ι → Worker ι ω → Shared ι → Worker ι ω → Prop
  /-- The next item is taken. -/
  | take {k i q h m l} : Turn work halting ⟨(k, i) :: q, h, m⟩ ⟨.empty, l⟩ ⟨q, h, m⟩ ⟨.taken k i, l⟩
  /-- Nothing is left. -/
  | leave {h m l} : Turn work halting ⟨[], h, m⟩ ⟨.empty, l⟩ ⟨[], h, m⟩ ⟨.gone, l⟩
  /-- Some work has failed in a halting pool. -/
  | quit {k i q m l} : Turn work halting ⟨q, true, m⟩ ⟨.taken k i, l⟩ ⟨q, true, m⟩ ⟨.gone, l⟩
  /-- The work is begun. -/
  | begin {k i q m l} :
    Turn work halting ⟨q, false, m⟩ ⟨.taken k i, l⟩ ⟨q, false, m⟩ ⟨.working k (work i), l⟩
  /-- The work asks the memory. -/
  | ask {k query next q h m l} :
    Turn work halting ⟨q, h, m⟩ ⟨.working k (.ask query next), l⟩
      ⟨q, h, m⟩ ⟨.working k (next (m.get? query)), l⟩
  /-- The work notes an answer. -/
  | note {k query a next q h m l} :
    Turn work halting ⟨q, h, m⟩ ⟨.working k (.note query a next), l⟩
      ⟨q, h, (m.offer query a).2⟩ ⟨.working k (next (m.offer query a).1), l⟩
  /-- The outcome is put to the others. -/
  | finish {k c q h m l} :
    Turn work halting ⟨q, h, m⟩ ⟨.working k (.done c), l⟩
      ⟨q, h || halting && c.outcome.failed, m⟩ ⟨.empty, l ++ [(k, c.outcome)]⟩

/-- The workers, and what they share. -/
structure State (ι ω : Type) where
  /-- What the workers share. -/
  shared : Shared ι
  /-- The workers, in the order in which they are waited for. -/
  workers : List (Worker ι ω)

/-- One of the workers takes a turn. -/
inductive Step (work : ι → Recall (Worked ω)) (halting : Bool) : State ι ω → State ι ω → Prop
  /-- The worker between the others. -/
  | turn {before after : List (Worker ι ω)} {s s' : Shared ι} {w w' : Worker ι ω}
    (h : Turn work halting s w s' w') :
    Step work halting ⟨s, before ++ w :: after⟩ ⟨s', before ++ w' :: after⟩

/-- The state that a run begins with: every item in the queue, and no more workers than items, but
one at least if there is anything to do. -/
def start (ω : Type) (workers : Nat) (items : List ι) (m : Memory) : State ι ω where
  shared := { queue := items.zipIdx.map Prod.swap, halted := false, memory := m }
  workers := List.replicate (min (max 1 workers) items.length) { hand := .empty, finished := [] }

/-- The states that a run leads to. -/
abbrev Leads (work : ι → Recall (Worked ω)) (halting : Bool) : State ι ω → State ι ω → Prop :=
  Relation.ReflTransGen (Step work halting)

/-- All workers have left. -/
def State.Finished (s : State ι ω) : Prop :=
  ∀ w ∈ s.workers, w.hand = .gone

/-- The result of a run from the outcomes of its items, each with its position. -/
def collect (stage : String) (outcomes : List (Nat × Outcome ω)) :
    Except RunFailure (List ω) :=
  let faults := outcomes.flatMap fun o => o.2.faults stage o.1
  let diagnostics := outcomes.flatMap fun o => o.2.diagnostics
  if !faults.isEmpty then .error (.aborted faults)
  else if !diagnostics.isEmpty then .error (.rejected diagnostics)
  else .ok (outcomes.flatMap fun o => o.2.outputs)

/-- The outcomes that the workers have kept, in the order of the items. -/
def State.outcomes (s : State ι ω) : List (Nat × Outcome ω) :=
  sortBy (fun a b => decide (a.1 ≤ b.1)) (s.workers.flatMap Worker.finished)

/-- What the outcomes that the workers have kept come to. -/
def State.result (stage : String) (s : State ι ω) : Except RunFailure (List ω) :=
  collect stage s.outcomes

/-! ### Progress -/

variable {work : ι → Recall (Worked ω)} {halting : Bool}

/-- A worker that has not left has a turn. -/
theorem exists_turn (s : Shared ι) {w : Worker ι ω} (hw : w.hand ≠ .gone) :
    ∃ s' w', Turn work halting s w s' w' := by
  obtain ⟨queue, halted, m⟩ := s
  obtain ⟨hand, l⟩ := w
  cases hand with
  | empty =>
    cases queue with
    | nil => exact ⟨_, _, .leave⟩
    | cons item queue => exact ⟨_, _, .take⟩
  | taken k i =>
    cases halted with
    | true => exact ⟨_, _, .quit⟩
    | false => exact ⟨_, _, .begin⟩
  | working k c =>
    cases c with
    | done c => exact ⟨_, _, .finish⟩
    | ask query next => exact ⟨_, _, .ask⟩
    | note query a next => exact ⟨_, _, .note⟩
  | gone => exact absurd rfl hw

/-- Until all workers have left, one of them has a turn. -/
theorem exists_step {s : State ι ω} (h : ¬ s.Finished) : ∃ s', Step work halting s s' := by
  obtain ⟨shared, workers⟩ := s
  simp only [State.Finished, not_forall] at h
  obtain ⟨w, hmem, hw⟩ := h
  obtain ⟨before, after, rfl⟩ := List.append_of_mem hmem
  obtain ⟨s', w', hturn⟩ := exists_turn shared hw
  exact ⟨_, .turn hturn⟩

/-! ### Termination -/

/-- What is left to do of one thing. -/
inductive Chore (ω : Type) where
  /-- A worker leaves. -/
  | leaving
  /-- The rest of the work on an item is done. -/
  | finishing (rest : Recall (Worked ω))
  /-- The work on an item is begun. -/
  | beginning
  /-- An item is taken. -/
  | taking

/-- A chore gives rise to smaller ones: the work on an item to what is left of it after a step. -/
inductive Chore.Below : Chore ω → Chore ω → Prop
  | ask {query next} (answer : Option (Query.Answer query)) :
    Below (.finishing (next answer)) (.finishing (.ask query next))
  | note {query a next} (b : Query.Answer query) :
    Below (.finishing (next b)) (.finishing (.note query a next))
  | begin (c : Recall (Worked ω)) : Below (.finishing c) .beginning
  | take : Below .beginning .taking

theorem Chore.wellFounded_below : WellFounded (@Chore.Below ω) := by
  have hfinishing (c : Recall (Worked ω)) : Acc Below (Chore.finishing c) := by
    induction c with
    | done c =>
      refine ⟨_, fun d hd => ?_⟩
      cases hd
    | ask query next ih =>
      refine ⟨_, fun d hd => ?_⟩
      cases hd with
      | ask answer => exact ih answer
    | note query a next ih =>
      refine ⟨_, fun d hd => ?_⟩
      cases hd with
      | note b => exact ih b
  have hbeginning : Acc Below (Chore.beginning : Chore ω) := by
    refine ⟨_, fun d hd => ?_⟩
    cases hd with
    | begin c => exact hfinishing c
  refine ⟨fun c => ?_⟩
  cases c with
  | leaving =>
    refine ⟨_, fun d hd => ?_⟩
    cases hd
  | finishing c => exact hfinishing c
  | beginning => exact hbeginning
  | taking =>
    refine ⟨_, fun d hd => ?_⟩
    cases hd with
    | take => exact hbeginning

/-- What is left to do for a worker. -/
def Worker.chores (w : Worker ι ω) : Multiset (Chore ω) :=
  match w.hand with
  | .empty => {.leaving}
  | .taken _ _ => {.leaving} + {.beginning}
  | .working _ rest => {.leaving} + {.finishing rest}
  | .gone => 0

/-- What is left to do with the items in the queue. -/
def Shared.chores (s : Shared ι) : Multiset (Chore ω) :=
  Multiset.replicate s.queue.length .taking

/-- What is left to do for all workers. -/
def State.chores (s : State ι ω) : Multiset (Chore ω) :=
  s.shared.chores + (s.workers.map Worker.chores).sum

open Relation

/-- A turn is one cut or two in the game against the hydra whose heads are the chores. -/
theorem Turn.chores {s s' : Shared ι} {w w' : Worker ι ω} (h : Turn work halting s w s' w') :
    TransGen (CutExpand Chore.Below) (s'.chores + w'.chores) (s.chores + w.chores) := by
  have hone {a b : Chore ω} (hab : Chore.Below a b) (others : Multiset (Chore ω)) :
      TransGen (CutExpand Chore.Below) (others + ({.leaving} + {a}))
        (others + ({.leaving} + {b})) :=
    .single ((cutExpand_add_left others).2 (cutExpand_add_single _ hab))
  have hleave (others : Multiset (Chore ω)) :
      CutExpand Chore.Below (others + 0) (others + {.leaving}) :=
    (cutExpand_add_left others).2 cutExpand_zero
  cases h with
  | @take k i q h m l =>
    refine .single ⟨{.beginning}, .taking, fun a ha => ?_, ?_⟩
    · rw [Multiset.mem_singleton.1 ha]
      exact .take
    · simp only [Shared.chores, Worker.chores, List.length_cons, Multiset.replicate_succ,
        ← Multiset.singleton_add]
      ac_rfl
  | leave => exact .single (hleave _)
  | quit =>
    refine .head (hleave _) (.single ((cutExpand_add_left _).2 ?_))
    exact ⟨0, .beginning, fun a ha => absurd ha (Multiset.notMem_zero a), (add_zero _).symm⟩
  | begin => exact hone (.begin _) _
  | ask => exact hone (.ask _) _
  | note => exact hone (.note _) _
  | finish =>
    refine .single ((cutExpand_add_left _).2 ?_)
    exact ⟨0, .finishing _, fun a ha => absurd ha (Multiset.notMem_zero a), (add_zero _).symm⟩

/-- The chores of one worker apart from those of the others. -/
theorem chores_split (s : Shared ι) (before after : List (Worker ι ω)) (w : Worker ι ω) :
    State.chores ⟨s, before ++ w :: after⟩ =
      s.chores + w.chores + ((before.map Worker.chores).sum + (after.map Worker.chores).sum) := by
  simp only [State.chores, List.map_append, List.map_cons, List.sum_append, List.sum_cons]
  ac_rfl

/-- No run goes on forever, whatever the order of the turns. -/
theorem wellFounded_step : WellFounded fun s' s : State ι ω => Step work halting s s' := by
  have hgame : WellFounded (TransGen (CutExpand (@Chore.Below ω))) :=
    Chore.wellFounded_below.cutExpand.transGen
  refine Subrelation.wf ?_ (InvImage.wf State.chores hgame)
  intro s' s h
  cases h with
  | turn h =>
    rw [InvImage, chores_split, chores_split]
    exact TransGen.lift (· + _) (fun _ _ hab => (cutExpand_add_right _).2 hab) _ _ h.chores

/-- Every run can be brought to its end. -/
theorem exists_finished (s : State ι ω) : ∃ s', Leads work halting s s' ∧ s'.Finished := by
  induction s using (@wellFounded_step ι ω work halting).induction with
  | _ s ih =>
    by_cases hs : s.Finished
    · exact ⟨s, .refl, hs⟩
    · obtain ⟨s', hstep⟩ : ∃ s', Step work halting s s' := exists_step hs
      obtain ⟨t, hleads, ht⟩ := ih s' hstep
      exact ⟨t, .head hstep hleads, ht⟩

end Pool

end TypedSheets
