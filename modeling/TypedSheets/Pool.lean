import TypedSheets.Diagnostic
import TypedSheets.Session.Memory

/-!
# The work pool

Work is cut into items that are worked on independently. Whatever the order in which they are
finished, their outcomes are gathered in the order of the items: faults first, then rejections, and
only without either the outputs. A halting pool hands out no more items after the first failure.

## Main definitions

* `Outcome` — how the work on one item ends.
* `Pool.gather` — the result of a run from the outcomes of its items.
* `Pool.outcomes` — the outcomes of the items that are worked on.
* `Pool.run` — a run.
-/

namespace TypedSheets

/-- How the work on one item ends. -/
inductive Outcome (ω : Type) where
  /-- With outputs. -/
  | success (outputs : List ω)
  /-- With diagnostics against what was worked on. -/
  | rejected (diagnostics : List Diagnostic)
  /-- With a fault of the work itself. -/
  | fault (text : String)
  /-- Unexpectedly, with a message. -/
  | panic (text : String)

/-- Whether the work failed. -/
def Outcome.failed {ω : Type} : Outcome ω → Bool
  | success _ => false
  | _ => true

/-- How a run fails. -/
inductive RunFailure where
  /-- With diagnostics against what was worked on. -/
  | rejected (diagnostics : List Diagnostic)
  /-- With faults of the work itself. -/
  | aborted (faults : List String)
deriving DecidableEq

namespace RunFailure

/-- The text of a failed run. -/
def message : RunFailure → String
  | rejected diagnostics => Text.natText diagnostics.length ++ " violation(s) reported"
  | aborted faults => Text.natText faults.length ++ " internal fault(s)"

/-- The text of a failed compilation. -/
def compilationMessage : RunFailure → String
  | rejected diagnostics =>
    "compilation rejected with " ++ Text.natText diagnostics.length ++ " diagnostic(s)"
  | aborted faults =>
    "compilation aborted by " ++ Text.natText faults.length ++ " internal fault(s)"

end RunFailure

namespace Outcome

variable {ω : Type}

/-- The outputs of an outcome. -/
def outputs : Outcome ω → List ω
  | success os => os
  | _ => []

/-- The diagnostics of an outcome. -/
def diagnostics : Outcome ω → List Diagnostic
  | rejected ds => ds
  | _ => []

/-- The faults of an outcome of the item at a position. -/
def faults (stage : String) (position : Nat) : Outcome ω → List String
  | fault text => [text]
  | panic text =>
    [stage ++ ": work item " ++ Text.natText position ++ " panicked: " ++ text]
  | _ => []

/-- The outcome of an attempt that gives an outcome: a sum of spans beyond its bounds and
definitions without end are unexpected. -/
def ofAttempt (a : Attempt (Outcome ω)) : Recall (Outcome ω) :=
  a.run.bind fun r => .done <| match r with
    | .ok o => o
    | .error (.failure f) => rejected [{ failure := f }]
    | .error .overflow => panic Duration.Overflow.sum.message
    | .error .endless => panic "the definitions lead to each other without end"

end Outcome

namespace Pool

variable {ι ω : Type}

/-- The faults of outcomes, where the first is that of the item at `position`. -/
def faultsFrom (stage : String) : (position : Nat) → List (Outcome ω) → List String
  | _, [] => []
  | position, o :: os => o.faults stage position ++ faultsFrom stage (position + 1) os

/-- The result of a run from the outcomes of its items, in the order of the items. -/
def gather (stage : String) (outcomes : List (Outcome ω)) : Except RunFailure (List ω) :=
  let faults := faultsFrom stage 0 outcomes
  let diagnostics := outcomes.flatMap Outcome.diagnostics
  if !faults.isEmpty then .error (.aborted faults)
  else if !diagnostics.isEmpty then .error (.rejected diagnostics)
  else .ok (outcomes.flatMap Outcome.outputs)

variable {m : Type → Type} [Monad m]

/-- The outcomes of the items that are worked on: of all of them, or, if halting, of those up to the
first that fails. -/
def outcomes (halting : Bool) (work : ι → m (Outcome ω)) : List ι → m (List (Outcome ω))
  | [] => pure []
  | item :: items => do
    let o ← work item
    if halting && o.failed then pure [o]
    else return o :: (← outcomes halting work items)

/-- Works on items and gathers their outcomes. -/
def run (stage : String) (halting : Bool) (work : ι → m (Outcome ω)) (items : List ι) :
    m (Except RunFailure (List ω)) :=
  gather stage <$> outcomes halting work items

end Pool

end TypedSheets
