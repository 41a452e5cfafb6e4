import Mathlib.Algebra.Ring.Int.Defs
import TypedSheets.Check.EnumDefinition
import TypedSheets.Proofs.Enum.Grammar
import TypedSheets.Proofs.Recall.Ensures
import TypedSheets.Proofs.Recall.Notes

/-!
# What evaluation accepts

An expression is checked twice, in two ways: its shape from token to token, and its value by a
machine that finds out whether its stack comes out with one number. The machine sees only how many
operands and operators there are, and not that an operator stands between two operands. So an
expression that has a value is well-formed only if no two of its operands stand side by side, where
the machine takes an empty group for nothing and an operator for wherever it may be.

## Main definitions

* `Token.net` — how far the tokens of an expression raise the stack.
* `Token.Balanced` — one operand more than there are operators, and no `~`.
* `Token.apart` — no two operands side by side.
* `Token.GivesNothing` — a computation behind which nothing is reached.

## Main results

* `Token.givesNothing_evaluate` — what is not balanced has no value.
* `Token.net_from_le` — operands apart raise the stack by one at most, and by one only in shape.
* `Token.Balanced.check_iff` — balanced tokens are well-formed if and only if operands are apart.
* `Token.evaluated_wellFormed_iff` — the expressions with a value that are well-formed.
-/

namespace TypedSheets.Token

/-! ### Counting operands and operators -/

/-- How far a token without groups raises the stack: an operand by one, and an operator takes two
operands for one. -/
def weight : Token → Int
  | value _ => 1
  | op _ => -1
  | _ => 0

/-- How far the tokens of an expression raise the stack. -/
def net (tokens : List Token) : Int :=
  ((flatten tokens).map weight).sum

/-- One operand more than there are operators, and no `~`. -/
structure Balanced (tokens : List Token) : Prop where
  /-- The operands and operators. -/
  net_eq : net tokens = 1
  /-- No `~`, in groups neither. -/
  invert_free : invert ∉ flatten tokens

theorem flatten_singleton (t : Token) : flatten [t] = flattenOne t := by
  rw [flatten, flatten, List.append_nil]

theorem net_cons (t : Token) (ts : List Token) : net (t :: ts) = net [t] + net ts := by
  simp only [net, flatten, List.append_nil, List.map_append, List.sum_append]

theorem net_group (inner : List Token) : net [group inner] = net inner := by
  rw [net, flatten_singleton, flattenOne, net]

/-- How far an element of the postfix form raises the stack. -/
def Postfix.weight : Postfix → Int
  | operand _ => 1
  | invert => 0
  | op _ => -1

theorem sum_flush (pending : Option BitOp) :
    ((flush pending).map Postfix.weight).sum = -pending.toList.length := by
  cases pending <;> rfl

mutual

/-- The postfix form keeps count, apart from the pending operators. -/
theorem sum_emit (pending : Option BitOp) (t : Token) :
    ((emit pending t).1.map Postfix.weight).sum =
      net [t] - pending.toList.length + (emit pending t).2.toList.length := by
  cases t with
  | value v => simp [emit, net, flatten, flattenOne, weight, Postfix.weight]
  | invert =>
    simp only [emit, net, flatten, flattenOne, weight, Postfix.weight, List.map_cons, List.map_nil,
      List.append_nil, List.sum_cons, List.sum_nil]
    omega
  | op o =>
    simp only [emit, sum_flush, net, flatten, flattenOne, weight, List.map_cons, List.map_nil,
      List.append_nil, List.sum_cons, List.sum_nil, Option.toList_some, List.length_singleton]
    omega
  | group inner =>
    rw [emit, sum_postfixFrom none inner, net_group]
    simp

/-- The postfix form keeps count, apart from the pending operator. -/
theorem sum_postfixFrom (pending : Option BitOp) (ts : List Token) :
    ((postfixFrom pending ts).map Postfix.weight).sum = net ts - pending.toList.length := by
  cases ts with
  | nil => simp [postfixFrom, sum_flush, net, flatten]
  | cons t ts =>
    rw [postfixFrom, List.map_append, List.sum_append, sum_emit pending t, sum_postfixFrom _ ts,
      net_cons t ts]
    omega

end

mutual

/-- No `~` gets lost in the postfix form. -/
theorem invert_mem_emit (pending : Option BitOp) (t : Token) (h : invert ∈ flattenOne t) :
    Postfix.invert ∈ (emit pending t).1 := by
  cases t with
  | value v => simp [flattenOne] at h
  | invert => simp [emit]
  | op o => simp [flattenOne] at h
  | group inner => exact invert_mem_postfixFrom none inner h

/-- No `~` gets lost in the postfix form. -/
theorem invert_mem_postfixFrom (pending : Option BitOp) (ts : List Token)
    (h : invert ∈ flatten ts) : Postfix.invert ∈ postfixFrom pending ts := by
  cases ts with
  | nil => cases h
  | cons t ts =>
    rw [postfixFrom]
    rcases List.mem_append.1 h with h | h
    · exact List.mem_append_left _ (invert_mem_emit pending t h)
    · exact List.mem_append_right _ (invert_mem_postfixFrom _ ts h)

end

/-! ### Computations without a result -/

section

variable {m : Type → Type} [Monad m] {α β : Type}

/-- A computation that gives no result: nothing behind it is reached. -/
def GivesNothing (c : ExceptT Halt m α) : Prop :=
  ∀ next : α → ExceptT Halt m α, c >>= next = c

variable [LawfulMonad m] {resolve : String → ExceptT Halt m Int64}

theorem stop_bind (fault : EvaluationFault) (next : α → ExceptT Halt m β) :
    stop fault >>= next = stop fault :=
  ExceptT.ext (pure_bind (Except.error _) (ExceptT.bindCont next))

theorem givesNothing_stop (fault : EvaluationFault) :
    GivesNothing (stop fault : ExceptT Halt m α) :=
  stop_bind fault

theorem GivesNothing.bind {c : ExceptT Halt m β} {next : β → ExceptT Halt m α}
    (h : ∀ b, GivesNothing (next b)) : GivesNothing (c >>= next) := by
  intro after
  rw [bind_assoc]
  exact bind_congr fun b => h b after

/-- The machine gives nothing unless there is no `~` and the stack comes out with one number. -/
theorem givesNothing_reduce {stack : List Int64} {ps : List Postfix}
    (h : Postfix.invert ∈ ps ∨ (stack.length : Int) + (ps.map Postfix.weight).sum ≠ 1) :
    GivesNothing (reduce resolve stack ps >>= fun
      | [n] => pure (EnumValue.integer n)
      | [] => stop .noValue
      | _ => stop .missingOperator) := by
  induction ps generalizing stack with
  | nil =>
    rw [reduce, pure_bind]
    rcases stack with _ | ⟨n, _ | ⟨m, stack⟩⟩
    · exact givesNothing_stop _
    · simp at h
    · exact givesNothing_stop _
  | cons p ps ih =>
    cases p with
    | operand v =>
      rw [reduce, bind_assoc]
      refine .bind fun n => ih ?_
      refine h.imp (fun h => by simpa using h) fun h => ?_
      simp only [List.map_cons, List.sum_cons, Postfix.weight, List.length_cons] at h ⊢
      omega
    | invert =>
      rw [reduce, stop_bind]
      exact givesNothing_stop _
    | op o =>
      rcases stack with _ | ⟨right, _ | ⟨left, stack⟩⟩
      · rw [reduce, stop_bind]
        · exact givesNothing_stop _
        · simp
      · rw [reduce, stop_bind]
        · exact givesNothing_stop _
        · simp
      · rw [reduce]
        refine ih (h.imp (fun h => by simpa using h) fun h => ?_)
        simp only [List.map_cons, List.sum_cons, Postfix.weight, List.length_cons] at h ⊢
        omega

/-- **What is not balanced has no value.** -/
theorem givesNothing_evaluate {tokens : List Token} (h : ¬ Balanced tokens) :
    GivesNothing (evaluate tokens resolve) := by
  by_cases hone : (flatten tokens).length = 1
  · obtain ⟨t, ht⟩ := List.length_eq_one_iff.1 hone
    unfold evaluate
    rw [ht]
    cases t with
    | value v => exact absurd ⟨by simp [net, ht, weight], by simp [ht]⟩ h
    | _ => exact givesNothing_stop _
  · rw [evaluate_of_length hone]
    refine givesNothing_reduce (Classical.or_iff_not_imp_left.2 fun hinvert hsum => h ⟨?_, ?_⟩)
    · simpa [toPostfix, sum_postfixFrom] using hsum
    · exact fun hmem => hinvert (invert_mem_postfixFrom none tokens hmem)

end

/-! ### The shape -/

/-- Whether a token is an operand: a value or a group. -/
def isOperand : Token → Bool
  | value _ | group _ => true
  | _ => false

mutual

/-- Whether no two operands stand side by side in a group. -/
def apartIn : Token → Bool
  | group inner => apartFrom false inner
  | _ => true

/-- Whether no two operands stand side by side, given whether one stands before the tokens. -/
def apartFrom (behind : Bool) : List Token → Bool
  | [] => true
  | t :: ts => !(behind && t.isOperand) && apartIn t && apartFrom t.isOperand ts

end

/-- Whether no two operands of an expression stand side by side, in groups neither. -/
def apart (tokens : List Token) : Bool :=
  apartFrom false tokens

open Shape

mutual

/-- An operand in shape has its own operands apart, and only an operand stands behind itself. -/
theorem apartIn_of_step {last last' : Last} (t : Token) (h : step last t = .ok last') :
    apartIn t = true ∧ t.isOperand = decide (last' = .value) ∧
      (t.isOperand = true → last ≠ .value) := by
  cases t with
  | value v =>
    rw [step] at h
    split at h
    · cases h
    · rename_i hlast
      cases h
      exact ⟨rfl, rfl, fun _ => hlast⟩
  | group inner =>
    rw [step] at h
    split at h
    · cases h
    · rename_i hlast
      cases hinner : checkFrom .start inner with
      | error fault =>
        rw [hinner] at h
        cases h
      | ok =>
        rw [hinner] at h
        cases h
        exact ⟨apartFrom_of_checkFrom inner hinner, rfl, fun _ => hlast⟩
  | op o =>
    rw [step] at h
    cases last <;> cases h
    exact ⟨rfl, rfl, nofun⟩
  | invert =>
    rw [step] at h
    cases last <;> cases h <;> exact ⟨rfl, rfl, nofun⟩

/-- Tokens in shape have their operands apart. -/
theorem apartFrom_of_checkFrom {last : Last} (ts : List Token) (h : checkFrom last ts = .ok ()) :
    apartFrom (decide (last = .value)) ts = true := by
  cases ts with
  | nil => rfl
  | cons t ts =>
    rw [checkFrom] at h
    cases hstep : step last t with
    | error fault =>
      rw [hstep] at h
      cases h
    | ok last' =>
      rw [hstep] at h
      obtain ⟨hin, hoperand, hlast⟩ := apartIn_of_step t hstep
      have hrest := apartFrom_of_checkFrom ts h
      rw [apartFrom, hin, hoperand, hrest]
      cases ht : t.isOperand with
      | false => simp [← hoperand, ht]
      | true => simp [hlast ht]

end

/-- How far tokens can raise the stack at most, given what stands before them. -/
def room (last : Last) : Int :=
  if last = .value then 0 else 1

mutual

/-- An operand with its operands apart raises the stack by one at most, and by one only in shape. -/
theorem net_operand_le (t : Token) (hoperand : t.isOperand = true) (hapart : apartIn t = true)
    (hinvert : invert ∉ flattenOne t) :
    net [t] ≤ 1 ∧ (net [t] = 1 → ∀ last ≠ .value, step last t = .ok .value) := by
  cases t with
  | value v =>
    refine ⟨by simp [net, flatten, flattenOne, weight], fun _ last hlast => ?_⟩
    rw [step, if_neg hlast]
  | group inner =>
    obtain ⟨hle, hcheck⟩ := net_from_le .start nofun inner hapart hinvert
    rw [net_group]
    refine ⟨hle, fun hone last hlast => ?_⟩
    rw [step, if_neg hlast, hcheck hone]
  | op o => cases hoperand
  | invert => cases hoperand

/-- Tokens with their operands apart raise the stack no further than there is room, and as far only
in shape. -/
theorem net_from_le (last : Last) (hlast : last ≠ .invert) (ts : List Token)
    (hapart : apartFrom (decide (last = .value)) ts = true) (hinvert : invert ∉ flatten ts) :
    net ts ≤ room last ∧ (net ts = room last → checkFrom last ts = .ok ()) := by
  cases ts with
  | nil =>
    cases last with
    | value => exact ⟨Int.le_refl 0, fun _ => rfl⟩
    | start => exact ⟨by decide, nofun⟩
    | op => exact ⟨by decide, nofun⟩
    | invert => exact absurd rfl hlast
  | cons t ts =>
    simp only [apartFrom, Bool.and_eq_true, Bool.not_eq_true', Bool.and_eq_false_iff,
      decide_eq_false_iff_not] at hapart
    obtain ⟨⟨hbefore, hin⟩, hbehind⟩ := hapart
    have hinverts := not_or.1 fun h => hinvert (List.mem_append.2 h)
    cases hoperand : t.isOperand with
    | true =>
      have hvalue : last ≠ .value := hbefore.resolve_right (by simp [hoperand])
      obtain ⟨hone, hstep⟩ := net_operand_le t hoperand hin hinverts.1
      rw [hoperand] at hbehind
      obtain ⟨hzero, hcheck⟩ := net_from_le .value nofun ts hbehind hinverts.2
      rw [net_cons, room, if_neg hvalue]
      rw [room, if_pos rfl] at hzero hcheck
      refine ⟨by omega, fun hsum => ?_⟩
      rw [checkFrom, hstep (by omega) last hvalue]
      exact hcheck (by omega)
    | false =>
      cases t with
      | value v => cases hoperand
      | group inner => cases hoperand
      | invert => exact absurd (List.mem_singleton.2 rfl) hinverts.1
      | op o =>
        have hop : net [op o] = -1 := rfl
        obtain ⟨hone, hcheck⟩ := net_from_le .op nofun ts hbehind hinverts.2
        rw [net_cons, hop]
        rw [room, if_neg nofun] at hone hcheck
        cases last with
        | value =>
          rw [room, if_pos rfl]
          refine ⟨by omega, fun hsum => ?_⟩
          rw [checkFrom]
          exact hcheck (by omega)
        | start =>
          rw [room, if_neg nofun]
          exact ⟨by omega, fun hsum => absurd hsum (by omega)⟩
        | op =>
          rw [room, if_neg nofun]
          exact ⟨by omega, fun hsum => absurd hsum (by omega)⟩
        | invert => exact absurd rfl hlast

end

/-- Balanced tokens are well-formed if and only if no two operands stand side by side. -/
theorem Balanced.check_iff {tokens : List Token} (h : Balanced tokens) :
    Shape.check tokens = .ok () ↔ apart tokens = true := by
  refine ⟨apartFrom_of_checkFrom tokens, fun hapart => ?_⟩
  obtain ⟨-, hcheck⟩ := net_from_le .start nofun tokens hapart h.invert_free
  exact hcheck h.net_eq

/-! ### Results -/

/-- What gives nothing has no result, whatever its resolver keeps in a state. -/
theorem GivesNothing.run_state {σ α : Type} {c : ExceptT Halt (StateM σ) α} (h : GivesNothing c)
    (s s' : σ) (a : α) : c.run.run s ≠ (.ok a, s') := by
  intro hrun
  have hnext := congrArg (fun c => (ExceptT.run c).run s) (h fun _ => stop .noValue)
  simp only [ExceptT.run_bind, StateT.run_bind, hrun] at hnext
  cases hnext

/-- What gives nothing has no result, whatever is remembered. -/
theorem GivesNothing.run_memory {α : Type} {c : Attempt α} (h : GivesNothing c) (memory : Memory)
    (a : α) : (c.run.run memory).1 ≠ .ok a := by
  intro hrun
  have hnext := congrArg (fun c : Attempt α => (c.run.run memory).1) (h fun _ => stop .noValue)
  simp only [ExceptT.run_bind, Recall.run_bind, hrun] at hnext
  cases hnext

/-- Behind the value of a cell there are balanced tokens. -/
theorem balanced_of_cell {ts : EnumTables} {name text : String} {memory : Memory} {v : EnumValue}
    (h : ((ts.evaluate name text).run.run memory).1 = .ok v) :
    ∃ tokens, parse text = .ok tokens ∧ Balanced tokens := by
  unfold EnumTables.evaluate at h
  split at h
  · cases h
  · cases hparse : parse text with
    | error f =>
      rw [hparse] at h
      cases h
    | ok tokens =>
      refine ⟨tokens, rfl, Classical.byContradiction fun hnot => ?_⟩
      rw [hparse, Attempt.ofExcept, pure_bind] at h
      split at h
      · cases h
      · exact (givesNothing_evaluate hnot).run_memory memory v h

/-- The tokens of a definition are accepted if and only if they are in shape. -/
theorem wellFormed_iff {text : String} {tokens : List Token} (hparse : parse text = .ok tokens) :
    Check.wellFormed text = .ok tokens ↔ Shape.check tokens = .ok () := by
  rw [Check.wellFormed, hparse]
  change (Shape.require tokens >>= fun _ => pure tokens) = .ok tokens ↔ _
  rw [Shape.require]
  cases hcheck : Shape.check tokens with
  | ok => exact iff_of_true rfl rfl
  | error fault => exact iff_of_false nofun nofun

/-- **Expressions with a value are well-formed just if their operands are apart.** If an expression
has a value, whatever the resolver gives for its symbols, then it contains no `~`, and the check of
its shape accepts it if and only if no two operands stand side by side, in groups neither. So it is
with the text of a cell of an enum type, which has a value only if the text, taken for the
definition of a member, is well-formed or has two operands side by side. -/
theorem evaluated_wellFormed_iff {σ : Type} (resolve : String → ExceptT Halt (StateM σ) Int64)
    (tokens : List Token) (s s' : σ) (ts : EnumTables) (name text : String) (memory : Memory)
    (v : EnumValue) :
    ((evaluate tokens resolve).run.run s = (.ok v, s') →
      invert ∉ flatten tokens ∧ (Shape.check tokens = .ok () ↔ apart tokens = true)) ∧
    (((ts.evaluate name text).run.run memory).1 = .ok v →
      ∃ tokens, parse text = .ok tokens ∧ invert ∉ flatten tokens ∧
        (Check.wellFormed text = .ok tokens ↔ apart tokens = true)) := by
  refine ⟨fun h => ?_, fun h => ?_⟩
  · have hbalanced : Balanced tokens := Classical.byContradiction fun hnot =>
      (givesNothing_evaluate hnot).run_state s s' v h
    exact ⟨hbalanced.invert_free, hbalanced.check_iff⟩
  · obtain ⟨tokens, hparse, hbalanced⟩ := balanced_of_cell h
    refine ⟨tokens, hparse, hbalanced.invert_free, ?_⟩
    exact (wellFormed_iff hparse).trans hbalanced.check_iff

/-- An enum with two members. -/
def flags : EnumTables :=
  .ofSheets [⟨⟨"flags.xlsx", "Flag", none⟩, "Flag", [("A", "1"), ("B", "2")]⟩]

/-- The tokens of `A|B` have a value, and so has the cell; the operands are apart. -/
theorem flags_wellFormed :
    (∃ tokens, parse "A|B" = .ok tokens ∧ Check.wellFormed "A|B" = .ok tokens) ∧
      Shape.check [value "A", op .or, value "B"] = .ok () := by
  have hparse : parse "A|B" = .ok [value "A", op .or, value "B"] := by
    have hA : operandLength ['A', '|', 'B'] = 1 := by decide
    have hB : operandLength ['B'] = 1 := by decide
    simp [parse, scan, scanFrom, Text.isBlank, hA, hB, Except.mapError]
  have hvalue : ((flags.evaluate "Flag" "A|B").run.run {}).1 = .ok (.integer 3) := by
    rw [Recall.fst_run_empty]
    decide +kernel
  have hrun : (evaluate [value "A", op .or, value "B"]
      fun _ => (pure 3 : ExceptT Halt (StateM Unit) Int64)).run.run () =
        (.ok (.integer 3), ()) := rfl
  obtain ⟨htokens, hcell⟩ := evaluated_wellFormed_iff _ _ _ _ flags "Flag" "A|B" {} (.integer 3)
  refine ⟨?_, (htokens hrun).2.2 rfl⟩
  obtain ⟨tokens, htext, -, hiff⟩ := hcell hvalue
  cases hparse.symm.trans htext
  exact ⟨_, hparse, hiff.2 rfl⟩

/-- The machine takes an operator for two operands that stand before it side by side. -/
theorem sideBySide_evaluated :
    let tokens := [group [value "A"], group [value "B"], op .or]
    parse "(A)(B)|" = .ok tokens ∧
      ((flags.evaluate "Flag" "(A)(B)|").run.run {}).1 = .ok (.integer 3) ∧
      Shape.check tokens = .error .groupAfterValue := by
  refine ⟨?_, ?_, rfl⟩
  · have hA : operandLength ['A', ')', '(', 'B', ')', '|'] = 1 := by decide
    have hB : operandLength ['B', ')', '|'] = 1 := by decide
    simp [parse, scan, scanFrom, Text.isBlank, hA, hB, Except.mapError]
  · rw [Recall.fst_run_empty]
    decide +kernel

end TypedSheets.Token
