import TypedSheets.Enum.Expression

/-!
# The shape of expressions

Whether operands and operators of an expression alternate: operands at both ends, `~` only before an
operand and at most once, and every group an expression of its own.

## Main definitions

* `Shape.Last` — what stands before the next token.
* `Shape.check` — the check, with the first fault it finds.
-/

namespace TypedSheets.Shape

/-- What stands before the next token. -/
inductive Last where
  | start
  | value
  | op
  | invert
deriving DecidableEq, Inhabited

/-- What can be wrong with the shape of an expression. -/
inductive Fault where
  | valueAfterValue (value : String)
  | groupAfterValue
  | startsWithOperator (op : BitOp)
  | operatorAfterOperator (op : BitOp)
  | invertTwice
  | invertAfterValue
  | endsWithoutValue
deriving DecidableEq

/-- The text of a fault. -/
def Fault.message : Fault → String
  | valueAfterValue value => s!"'{value}' follows another value"
  | groupAfterValue => "group follows a value"
  | startsWithOperator op => "expression starts with operator '" ++ op.text ++ "'"
  | operatorAfterOperator op => "operator '" ++ op.text ++ "' follows another operator"
  | invertTwice => "'~~' is not allowed"
  | invertAfterValue => "'~' follows a value"
  | endsWithoutValue => "expression must end on a value"

/-- What stands behind an operator, given what stands before it. -/
def afterOp (op : BitOp) : Last → Except Fault Last
  | .start => .error (.startsWithOperator op)
  | .op | .invert => .error (.operatorAfterOperator op)
  | .value => .ok .op

/-- What stands behind `~`, given what stands before it. -/
def afterInvert : Last → Except Fault Last
  | .invert => .error .invertTwice
  | .value => .error .invertAfterValue
  | .start | .op => .ok .invert

mutual

/-- What stands behind a token, given what stands before it. -/
def step (last : Last) : Token → Except Fault Last
  | .value v => if last = .value then .error (.valueAfterValue v) else .ok .value
  | .group inner =>
    if last = .value then .error .groupAfterValue
    else match checkFrom .start inner with
      | .ok () => .ok .value
      | .error fault => .error fault
  | .op op => afterOp op last
  | .invert => afterInvert last

/-- Checks tokens, given what stands before them. -/
def checkFrom (last : Last) : List Token → Except Fault Unit
  | [] => if last = .value then .ok () else .error .endsWithoutValue
  | t :: ts =>
    match step last t with
    | .ok last => checkFrom last ts
    | .error fault => .error fault

end

/-- Checks the tokens of a whole expression. -/
def check (tokens : List Token) : Except Fault Unit :=
  checkFrom .start tokens

/-- Checks the tokens of a whole expression, with the failure to report. -/
def require (tokens : List Token) : Except Failure Unit :=
  (check tokens).mapError fun f => .parse f.message

end TypedSheets.Shape
