import TypedSheets.Enum.Expression
import TypedSheets.Session.Memory

/-!
# Evaluating expressions

The value of an expression. There is no precedence between `&` and `|`: operators reduce from left
to right, each group on its own first. A single operand is not converted: a symbol stays a symbol.

## Main definitions

* `Token.flatten` — the tokens without their groups.
* `Token.toPostfix` — the expression with each operator behind its operands.
* `Token.evaluate` — the value, with symbols resolved by a given computation.

## Design

The postfix form keeps one pending operator for each group and puts it out when the next operator
arrives or the group ends. Ill-shaped expressions have a postfix form too, and are found out while
it is reduced.
-/

namespace TypedSheets.Token

/-- An element of the postfix form. -/
inductive Postfix where
  | operand (text : String)
  | invert
  | op (op : BitOp)
deriving DecidableEq, Inhabited

/-- The pending operator, put out. -/
def flush (pending : Option BitOp) : List Postfix :=
  pending.toList.map .op

mutual

/-- What a token puts out, and the operator pending behind it. -/
def emit (pending : Option BitOp) : Token → List Postfix × Option BitOp
  | value v => ([.operand v], pending)
  | invert => ([.invert], pending)
  | op o => (flush pending, some o)
  | group inner => (postfixFrom none inner, pending)

/-- The postfix form of tokens behind a pending operator. -/
def postfixFrom (pending : Option BitOp) : List Token → List Postfix
  | [] => flush pending
  | t :: ts => (emit pending t).1 ++ postfixFrom (emit pending t).2 ts

end

/-- The postfix form of an expression. -/
def toPostfix (tokens : List Token) : List Postfix :=
  postfixFrom none tokens

mutual

/-- A token without groups around or inside it. -/
def flattenOne : Token → List Token
  | group inner => flatten inner
  | t => [t]

/-- The tokens of an expression without its groups, in order. -/
def flatten : List Token → List Token
  | [] => []
  | t :: ts => flattenOne t ++ flatten ts

end

/-- What can be wrong with an expression when it is evaluated. -/
inductive EvaluationFault where
  | noOperand
  | unsupportedInvert
  | missingOperand (op : BitOp)
  | noValue
  | missingOperator
deriving DecidableEq

/-- The text of a fault. -/
def EvaluationFault.message : EvaluationFault → String
  | noOperand => "enum expression has no operand"
  | unsupportedInvert => "unary '~' is not supported"
  | missingOperand o => "operator '" ++ o.text ++ "' is missing an operand"
  | noValue => "empty enum expression"
  | missingOperator => "enum operands are missing an operator"

variable {m : Type → Type} [Monad m]

/-- Stops with a fault. -/
def stop {α : Type} (fault : EvaluationFault) : ExceptT Halt m α :=
  throw (.failure (.parse fault.message))

/-- The number an operand stands for. -/
def operandValue (resolve : String → ExceptT Halt m Int64) (text : String) :
    ExceptT Halt m Int64 :=
  match literal? text.toList with
  | some n => pure n
  | none => resolve text

/-- Reduces a postfix form, with the operands read so far on a stack. -/
def reduce (resolve : String → ExceptT Halt m Int64) :
    (stack : List Int64) → List Postfix → ExceptT Halt m (List Int64)
  | stack, [] => pure stack
  | stack, .operand v :: rest => do
    let n ← operandValue resolve v
    reduce resolve (n :: stack) rest
  | _, .invert :: _ => stop .unsupportedInvert
  | right :: left :: stack, .op o :: rest => reduce resolve (o.apply left right :: stack) rest
  | _, .op o :: _ => stop (.missingOperand o)

/-- The value of an expression that is more than one token. -/
def combine (tokens : List Token) (resolve : String → ExceptT Halt m Int64) :
    ExceptT Halt m EnumValue := do
  match ← reduce resolve [] (toPostfix tokens) with
  | [n] => pure (.integer n)
  | [] => stop .noValue
  | _ => stop .missingOperator

/-- The value of an expression. -/
def evaluate (tokens : List Token) (resolve : String → ExceptT Halt m Int64) :
    ExceptT Halt m EnumValue :=
  match flatten tokens with
  | [value v] =>
    match literal? v.toList with
    | some n => pure (.integer n)
    | none => pure (.symbol v)
  | [_] => stop .noOperand
  | _ => combine tokens resolve

end TypedSheets.Token
