import TypedSheets.Enum.Evaluation

/-!
# Expressions reduce from left to right

An expression of the grammar is an operand and a chain of operators, each with the operand behind
it; an operand is a value or an expression in parentheses. The meaning of an expression is the left
fold of its chain: there is no precedence between `&` and `|`, and a group counts for the number it
reduces to by itself. The machine that evaluates tokens knows neither groups nor chains, only one
pending operator for each group and one stack for all of them.

## Main definitions

* `Infix.Operand`, `Infix.Chain`, `Infix.Expr` — the grammar.
* `Infix.Expr.tokens` — the tokens of an expression.
* `Infix.Expr.reduced` — the number that an expression of numbers reduces to.
* `Infix.Expr.traverse` — replaces the values of an expression one after the other.

## Main results

* `Infix.reduce_operand`, `Infix.reduce_chain` — what the machine does with the postfix form.
* `Infix.evaluate_tokens` — expressions are evaluated to what they mean.
-/

namespace TypedSheets

/-- What is not a single token is evaluated by the machine. -/
theorem Token.evaluate_of_length {m : Type → Type} [Monad m] {tokens : List Token}
    {resolve : String → ExceptT Halt m Int64} (h : (flatten tokens).length ≠ 1) :
    evaluate tokens resolve = combine tokens resolve := by
  unfold evaluate
  split
  · rename_i hone
    exact absurd (congrArg List.length hone) h
  · rename_i hone
    exact absurd (congrArg List.length hone) h
  · rfl

namespace Infix

/-! ### The grammar -/

mutual

/-- An operand: a value, or an expression in parentheses. -/
inductive Operand (α : Type) where
  | value (a : α)
  | group (first : Operand α) (rest : Chain α)

/-- Operators, each with the operand behind it. -/
inductive Chain (α : Type) where
  | nil
  | cons (op : BitOp) (operand : Operand α) (rest : Chain α)

end

/-- An expression: an operand, and a chain behind it. -/
structure Expr (α : Type) where
  /-- The operand. -/
  first : Operand α
  /-- The chain. -/
  rest : Chain α

mutual

/-- The token of an operand. -/
def Operand.token : Operand String → Token
  | .value text => .value text
  | .group first rest => .group (first.token :: rest.tokens)

/-- The tokens of a chain. -/
def Chain.tokens : Chain String → List Token
  | .nil => []
  | .cons op operand rest => .op op :: operand.token :: rest.tokens

end

/-- The tokens of an expression. -/
def Expr.tokens (e : Expr String) : List Token :=
  e.first.token :: e.rest.tokens

mutual

/-- The number that an operand stands for. -/
def Operand.reduced : Operand Int64 → Int64
  | .value n => n
  | .group first rest => rest.foldFrom first.reduced

/-- The left fold of a chain of operators behind a number. -/
def Chain.foldFrom (left : Int64) : Chain Int64 → Int64
  | .nil => left
  | .cons op operand rest => rest.foldFrom (op.apply left operand.reduced)

end

/-- The number that an expression reduces to. -/
def Expr.reduced (e : Expr Int64) : Int64 :=
  e.rest.foldFrom e.first.reduced

section Traverse

variable {α β : Type} {m : Type → Type} [Monad m]

mutual

/-- Replaces the values of an operand, from left to right. -/
def Operand.traverse (f : α → m β) : Operand α → m (Operand β)
  | .value a => do
    let b ← f a
    return .value b
  | .group first rest => do
    let first ← first.traverse f
    let rest ← rest.traverse f
    return .group first rest

/-- Replaces the values of a chain, from left to right. -/
def Chain.traverse (f : α → m β) : Chain α → m (Chain β)
  | .nil => return .nil
  | .cons op operand rest => do
    let operand ← operand.traverse f
    let rest ← rest.traverse f
    return .cons op operand rest

end

/-- Replaces the values of an expression, from left to right. -/
def Expr.traverse (f : α → m β) (e : Expr α) : m (Expr β) := do
  let first ← e.first.traverse f
  let rest ← e.rest.traverse f
  return ⟨first, rest⟩

end Traverse

/-! ### The machine -/

open Token hiding op value group

variable {m : Type → Type} [Monad m] {resolve : String → ExceptT Halt m Int64}

/-- The token of an operand leaves the pending operator alone. -/
theorem emit_token (pending : Option BitOp) (t : Operand String) :
    emit pending t.token = ((emit none t.token).1, pending) := by
  cases t with
  | value text => rfl
  | group first rest => rfl

variable [LawfulMonad m]

mutual

/-- The postfix form of an operand pushes the number that the operand stands for. -/
theorem reduce_operand (t : Operand String) (stack : List Int64) (out : List Postfix) :
    reduce resolve stack ((emit none t.token).1 ++ out) =
      t.traverse (operandValue resolve) >>= fun t' => reduce resolve (t'.reduced :: stack) out := by
  cases t with
  | value text =>
    simp only [Operand.token, emit, List.singleton_append, reduce, Operand.traverse, bind_assoc,
      pure_bind, Operand.reduced]
  | group first rest =>
    have hform : (emit none (Operand.group first rest).token).1 ++ out =
        (emit none first.token).1 ++ (postfixFrom none rest.tokens ++ out) := by
      rw [Operand.token, emit, postfixFrom, emit_token, List.append_assoc]
    rw [hform, reduce_operand first]
    simp only [Operand.traverse, bind_assoc, pure_bind]
    refine bind_congr fun first' => ?_
    exact reduce_chain rest none (fun _ => rfl) out

/-- The postfix form of a chain folds it from the number that stands before it. This number may
still be two with an operator pending. -/
theorem reduce_chain (rest : Chain String) (pending : Option BitOp) {stack stack' : List Int64}
    {left : Int64}
    (hpending : ∀ out, reduce resolve stack (flush pending ++ out) =
      reduce resolve (left :: stack') out) (out : List Postfix) :
    reduce resolve stack (postfixFrom pending rest.tokens ++ out) =
      rest.traverse (operandValue resolve) >>= fun rest' =>
        reduce resolve (rest'.foldFrom left :: stack') out := by
  cases rest with
  | nil =>
    simp only [Chain.tokens, postfixFrom, hpending, Chain.traverse, pure_bind, Chain.foldFrom]
  | cons op operand rest =>
    have hform : postfixFrom pending (Chain.cons op operand rest).tokens ++ out =
        flush pending ++ ((emit none operand.token).1 ++
          (postfixFrom (some op) rest.tokens ++ out)) := by
      rw [Chain.tokens, postfixFrom, emit, postfixFrom, emit_token]
      simp only [List.append_assoc]
    rw [hform, hpending, reduce_operand operand]
    simp only [Chain.traverse, bind_assoc, pure_bind, Chain.foldFrom]
    refine bind_congr fun operand' => ?_
    exact reduce_chain rest (some op) (fun _ => rfl) out

end

/-- An expression is reduced to its number. -/
theorem combine_tokens (e : Expr String) :
    combine e.tokens resolve =
      (fun e' : Expr Int64 => EnumValue.integer e'.reduced) <$>
        e.traverse (operandValue resolve) := by
  have hform : toPostfix e.tokens =
      (emit none e.first.token).1 ++ (postfixFrom none e.rest.tokens ++ []) := by
    rw [toPostfix, Expr.tokens, postfixFrom, emit_token, List.append_nil]
  have hchain (first : Operand Int64) :
      reduce resolve [first.reduced] (postfixFrom none e.rest.tokens ++ []) =
        e.rest.traverse (operandValue resolve) >>= fun rest =>
          reduce resolve [rest.foldFrom first.reduced] [] :=
    reduce_chain e.rest none (fun _ => rfl) []
  rw [combine, hform, reduce_operand e.first]
  rw [Expr.traverse, bind_assoc, map_bind]
  refine bind_congr fun first => ?_
  rw [hchain, bind_assoc, map_bind]
  refine bind_congr fun rest => ?_
  rw [reduce, pure_bind, map_pure]
  rfl

/-! ### The calls -/

mutual

/-- The values of an operand are replaced by calls for its symbols. -/
theorem traverse_operand_calls {β : Type} (t : Operand String) (next : ExceptT Halt m β) :
    (t.traverse (operandValue resolve) >>= fun _ => next) =
      (symbolsOf t.token).mapM resolve >>= fun _ => next := by
  cases t with
  | value text =>
    simp only [Operand.traverse, Operand.token, symbolsOf, bind_assoc, pure_bind]
    obtain hliteral | ⟨n, hliteral⟩ := Option.eq_none_or_eq_some (literal? text.toList)
    · simp [operandValue, isLiteral, hliteral]
    · simp [operandValue, isLiteral, hliteral]
  | group first rest =>
    simp only [Operand.traverse, Operand.token, symbolsOf, symbols, bind_assoc, pure_bind,
      List.mapM_append]
    rw [traverse_operand_calls first]
    refine bind_congr fun _ => ?_
    exact traverse_chain_calls rest next

/-- The values of a chain are replaced by calls for its symbols. -/
theorem traverse_chain_calls {β : Type} (rest : Chain String) (next : ExceptT Halt m β) :
    (rest.traverse (operandValue resolve) >>= fun _ => next) =
      (symbols rest.tokens).mapM resolve >>= fun _ => next := by
  cases rest with
  | nil => simp [Chain.traverse, Chain.tokens, symbols]
  | cons op operand rest =>
    simp only [Chain.traverse, Chain.tokens, symbols, symbolsOf, List.nil_append, bind_assoc,
      pure_bind, List.mapM_append]
    rw [traverse_operand_calls operand]
    refine bind_congr fun _ => ?_
    exact traverse_chain_calls rest next

end

/-- The values of an expression are replaced by calls for its symbols. -/
theorem traverse_calls {β : Type} (e : Expr String) (next : ExceptT Halt m β) :
    (e.traverse (operandValue resolve) >>= fun _ => next) =
      (symbols e.tokens).mapM resolve >>= fun _ => next := by
  simp only [Expr.traverse, Expr.tokens, symbols, bind_assoc, pure_bind, List.mapM_append]
  rw [traverse_operand_calls e.first]
  refine bind_congr fun _ => ?_
  exact traverse_chain_calls e.rest next

/-! ### Evaluation -/

/-- **Expressions reduce from left to right.** An expression that is more than one token evaluates
to the left fold of its operators over its operands, each group reduced by itself, with the symbols
replaced by what the resolver gives for them. To evaluate it is to call the resolver for each
occurrence of a symbol, from left to right, and to fail with the first failure that it gives. Tokens
that are a single value apart from parentheses are not converted, and the resolver is not called. -/
theorem evaluate_tokens (resolve : String → ExceptT Halt m Int64) :
    (∀ e : Expr String, 1 < (flatten e.tokens).length →
      evaluate e.tokens resolve =
          (fun e' : Expr Int64 => .integer e'.reduced) <$> e.traverse (operandValue resolve) ∧
        (fun _ => ()) <$> evaluate e.tokens resolve =
          (fun _ => ()) <$> (symbols e.tokens).mapM resolve) ∧
      ∀ tokens v, flatten tokens = [.value v] →
        evaluate tokens resolve =
          pure (match literal? v.toList with
            | some n => .integer n
            | none => .symbol v) := by
  refine ⟨fun e hmany => ?_, fun tokens v hsingle => ?_⟩
  · have hvalue : evaluate e.tokens resolve = _ :=
      (evaluate_of_length (Nat.ne_of_gt hmany)).trans (combine_tokens e)
    refine ⟨hvalue, ?_⟩
    calc (fun _ => ()) <$> evaluate e.tokens resolve
        = e.traverse (operandValue resolve) >>= fun _ => pure () := by
          rw [hvalue, ← comp_map, ← bind_pure_comp]
      _ = (symbols e.tokens).mapM resolve >>= fun _ => pure () := traverse_calls e (pure ())
      _ = (fun _ => ()) <$> (symbols e.tokens).mapM resolve := bind_pure_comp ..
  · simp only [evaluate, hsingle]
    cases literal? v.toList <;> rfl

/-- The expression `A|B&(B|0)` reduces to 2 where `A` is 1 and `B` is 2, and the resolver is called
three times; the symbol in `((A))` is left alone. -/
theorem evaluate_tokens_mixed :
    let resolve (symbol : String) : ExceptT Halt (StateM (List String)) Int64 := do
      modify (· ++ [symbol])
      return if symbol = "A" then 1 else 2
    let e : Expr String := ⟨.value "A", .cons .or (.value "B") (.cons .and
      (.group (.value "B") (.cons .or (.value "0") .nil)) .nil)⟩
    1 < (flatten e.tokens).length ∧
      (evaluate e.tokens resolve).run.run [] = (.ok (.integer 2), ["A", "B", "B"]) ∧
      flatten [.group [.group [.value "A"]]] = [.value "A"] ∧
      evaluate [.group [.group [.value "A"]]] resolve = pure (.symbol "A") := by
  intro resolve e
  have hmany : 1 < (flatten e.tokens).length := by decide
  have hsingle : flatten [.group [.group [.value "A"]]] = [.value "A"] := rfl
  obtain ⟨htokens, hvalue⟩ := evaluate_tokens resolve
  refine ⟨hmany, ?_, hsingle, ?_⟩
  · rw [(htokens e hmany).1]
    rfl
  · rw [hvalue _ _ hsingle]
    rfl

end Infix

end TypedSheets
