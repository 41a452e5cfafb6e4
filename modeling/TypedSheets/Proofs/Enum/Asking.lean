import Mathlib.Tactic.Choose
import TypedSheets.Proofs.Enum.Acceptance
import TypedSheets.Proofs.Recall.Calls

/-!
# What expressions ask for

Which symbols an expression asks for, one after the other, and what fault it then has, depends only
on how many operands are on the stack of the machine, and not on their numbers. So evaluation is
asking for symbols in a fixed order, and a conclusion from the answers.

## Main definitions

* `Token.numberOf` — the number of an expression; a single symbol is resolved as well.
* `Token.asked` — the symbols that are asked for, in order.
* `Token.fault?` — the fault that an expression has when all symbols are resolved.

## Main results

* `Token.numberOf_eq` — an expression asks for its symbols in order, and concludes.
* `Token.answer_eq_error_iff` — why an expression has no number.
* `Token.mem_symbols_of_mem_asked` — only symbols of the expression are asked for.
* `Token.mem_asked_of_mem_symbols` — all of them are, unless there is a fault.
-/

namespace TypedSheets.Token

/-! ### Plans -/

/-- The symbols that a postfix form asks for, given the number of operands on the stack. -/
def asksFrom (height : Nat) : List Postfix → List String
  | [] => []
  | .operand v :: rest =>
    if isLiteral v then asksFrom (height + 1) rest else v :: asksFrom (height + 1) rest
  | .invert :: _ => []
  | .op _ :: rest =>
    match height with
    | height + 2 => asksFrom (height + 1) rest
    | _ => []

/-- The fault that a postfix form has, given the number of operands on the stack. -/
def faultFrom? (height : Nat) : List Postfix → Option EvaluationFault
  | [] =>
    match height with
    | 0 => some .noValue
    | 1 => none
    | _ => some .missingOperator
  | .operand _ :: rest => faultFrom? (height + 1) rest
  | .invert :: _ => some .unsupportedInvert
  | .op o :: rest =>
    match height with
    | height + 2 => faultFrom? (height + 1) rest
    | _ => some (.missingOperand o)

/-- The symbols that an expression asks for, in order. -/
def asked (tokens : List Token) : List String :=
  match flatten tokens with
  | [value v] => if isLiteral v then [] else [v]
  | [_] => []
  | _ => asksFrom 0 (toPostfix tokens)

/-- The fault that an expression has when all its symbols are resolved. -/
def fault? (tokens : List Token) : Option EvaluationFault :=
  match flatten tokens with
  | [value _] => none
  | [_] => some .noOperand
  | _ => faultFrom? 0 (toPostfix tokens)

theorem asked_of_length {tokens : List Token} (h : (flatten tokens).length ≠ 1) :
    asked tokens = asksFrom 0 (toPostfix tokens) := by
  unfold asked
  split
  · rename_i hone
    exact absurd (congrArg List.length hone) h
  · rename_i hone
    exact absurd (congrArg List.length hone) h
  · rfl

theorem fault?_of_length {tokens : List Token} (h : (flatten tokens).length ≠ 1) :
    fault? tokens = faultFrom? 0 (toPostfix tokens) := by
  unfold fault?
  split
  · rename_i hone
    exact absurd (congrArg List.length hone) h
  · rename_i hone
    exact absurd (congrArg List.length hone) h
  · rfl

/-! ### Evaluation as asking -/

section

variable {m : Type → Type} [Monad m]

/-- The number of an expression: that of its symbol, if it is a single one. -/
def numberOf (tokens : List Token) (resolve : String → ExceptT Halt m Int64) :
    ExceptT Halt m Int64 := do
  match ← evaluate tokens resolve with
  | .integer n => pure n
  | .symbol name => resolve name

/-- A number, unless there is a fault. -/
def conclude (fault : Option EvaluationFault) (n : Int64) : ExceptT Halt m Int64 :=
  match fault with
  | some fault => stop fault
  | none => pure n

/-- The number that is left on the stack in the end. -/
def finish : List Int64 → ExceptT Halt m Int64
  | [n] => pure n
  | [] => stop .noValue
  | _ => stop .missingOperator

variable [LawfulMonad m]

/-- Nothing is asked for before a fault. -/
theorem conclude_fault (resolve : String → ExceptT Halt m Int64) (fault : EvaluationFault)
    (g : List Int64 → Int64) :
    ([].mapM resolve >>= fun ns => conclude (some fault) (g ns)) = stop fault := by
  rw [List.mapM_nil, pure_bind]
  rfl

/-- The machine asks for symbols in order, and concludes. -/
theorem reduce_asks (stack : List Int64) (ps : List Postfix) :
    ∃ g : List Int64 → Int64, ∀ resolve : String → ExceptT Halt m Int64,
      (reduce resolve stack ps >>= finish) =
        (asksFrom stack.length ps).mapM resolve >>= fun ns =>
          conclude (faultFrom? stack.length ps) (g ns) := by
  induction ps generalizing stack with
  | nil =>
    refine ⟨fun _ => stack.headD 0, fun resolve => ?_⟩
    rw [reduce, asksFrom, List.mapM_nil, pure_bind, pure_bind]
    rcases stack with _ | ⟨n, _ | ⟨_, _⟩⟩ <;> rfl
  | cons p ps ih =>
    cases p with
    | operand v =>
      cases hliteral : literal? v.toList with
      | some n =>
        obtain ⟨g, hg⟩ := ih (n :: stack)
        refine ⟨g, fun resolve => ?_⟩
        have hasks : asksFrom stack.length (.operand v :: ps) = asksFrom (stack.length + 1) ps := by
          rw [asksFrom, isLiteral, hliteral]
          rfl
        rw [reduce, operandValue, hliteral, hasks]
        dsimp only
        rw [pure_bind]
        exact hg resolve
      | none =>
        choose g hg using fun n => ih (n :: stack)
        refine ⟨fun ns => g (ns.headD 0) ns.tail, fun resolve => ?_⟩
        have hasks : asksFrom stack.length (.operand v :: ps) =
            v :: asksFrom (stack.length + 1) ps := by
          rw [asksFrom, isLiteral, hliteral]
          rfl
        rw [reduce, operandValue, hliteral, hasks, List.mapM_cons, bind_assoc, bind_assoc]
        refine bind_congr fun n => ?_
        rw [bind_assoc]
        simp only [pure_bind]
        exact hg n resolve
    | invert =>
      refine ⟨fun _ => 0, fun resolve => ?_⟩
      rw [reduce, stop_bind]
      exact (conclude_fault resolve _ _).symm
    | op o =>
      rcases stack with _ | ⟨right, _ | ⟨left, stack⟩⟩
      · refine ⟨fun _ => 0, fun resolve => ?_⟩
        rw [reduce, stop_bind]
        · exact (conclude_fault resolve _ _).symm
        · simp
      · refine ⟨fun _ => 0, fun resolve => ?_⟩
        rw [reduce, stop_bind]
        · exact (conclude_fault resolve _ _).symm
        · simp
      · obtain ⟨g, hg⟩ := ih (o.apply left right :: stack)
        exact ⟨g, fun resolve => by rw [reduce]; exact hg resolve⟩

/-- **An expression asks for its symbols in order, and concludes** from the answers alone. -/
theorem numberOf_eq (tokens : List Token) :
    ∃ g : List Int64 → Int64, ∀ resolve : String → ExceptT Halt m Int64,
      numberOf tokens resolve =
        (asked tokens).mapM resolve >>= fun ns => conclude (fault? tokens) (g ns) := by
  by_cases hone : (flatten tokens).length = 1
  · obtain ⟨t, ht⟩ := List.length_eq_one_iff.1 hone
    cases t with
    | value v =>
      cases hliteral : literal? v.toList with
      | some n =>
        refine ⟨fun _ => n, fun resolve => ?_⟩
        simp [numberOf, evaluate, asked, fault?, ht, isLiteral, hliteral, conclude]
      | none =>
        refine ⟨fun ns => ns.headD 0, fun resolve => ?_⟩
        simp [numberOf, evaluate, asked, fault?, ht, isLiteral, hliteral, conclude]
    | _ =>
      refine ⟨fun _ => 0, fun resolve => ?_⟩
      simp only [numberOf, evaluate, asked, fault?, ht, stop_bind]
      exact (conclude_fault resolve _ _).symm
  · obtain ⟨g, hg⟩ := reduce_asks (m := m) [] (toPostfix tokens)
    refine ⟨g, fun resolve => ?_⟩
    rw [numberOf, evaluate_of_length hone, combine, bind_assoc, asked_of_length hone,
      fault?_of_length hone]
    refine Eq.trans (bind_congr fun stack => ?_) (hg resolve)
    rcases stack with _ | ⟨n, _ | ⟨_, _⟩⟩
    · exact stop_bind _ _
    · exact pure_bind _ _
    · exact stop_bind _ _

end

/-! ### Answers -/

/-- The number of an expression, from what its symbols are resolved to. -/
def answer (tokens : List Token) (resolved : String → Except Halt Int64) : Except Halt Int64 :=
  Recall.valueWith (numberOf tokens) resolved

/-- What is concluded from the answers. -/
def conclusion (fault : Option EvaluationFault) (n : Int64) : Except Halt Int64 :=
  match fault with
  | some fault => .error (.failure (.parse fault.message))
  | none => .ok n

/-- The number of an expression is concluded from the answers, be they computed or known. -/
theorem fresh_numberOf_eq (tokens : List Token) :
    ∃ g : List Int64 → Int64, ∀ resolve : String → Attempt Int64,
      (numberOf tokens resolve).run.fresh =
        (asked tokens).mapM (fun name => (resolve name).run.fresh) >>= fun ns =>
          conclusion (fault? tokens) (g ns) := by
  obtain ⟨g, hg⟩ := numberOf_eq (m := Recall) tokens
  refine ⟨g, fun resolve => ?_⟩
  rw [hg, Recall.fresh_bind_run, Recall.fresh_mapM_run]
  refine bind_congr fun ns => ?_
  cases fault? tokens <;> rfl

theorem answer_eq (tokens : List Token) :
    ∃ g : List Int64 → Int64, ∀ resolved, answer tokens resolved =
      (asked tokens).mapM resolved >>= fun ns => conclusion (fault? tokens) (g ns) := by
  obtain ⟨g, hg⟩ := fresh_numberOf_eq tokens
  exact ⟨g, fun resolved => hg fun name => ExceptT.mk (.done (resolved name))⟩

theorem fresh_numberOf (tokens : List Token) (resolve : String → Attempt Int64) :
    (numberOf tokens resolve).run.fresh =
      answer tokens fun name => (resolve name).run.fresh := by
  obtain ⟨g, hg⟩ := fresh_numberOf_eq tokens
  rw [answer, Recall.valueWith, hg, hg]
  rfl

section

variable {tokens : List Token} {resolved resolved' : String → Except Halt Int64}

/-- Only the symbols that are asked for matter. -/
theorem answer_congr (h : ∀ s ∈ asked tokens, resolved s = resolved' s) :
    answer tokens resolved = answer tokens resolved' := by
  obtain ⟨g, hg⟩ := answer_eq tokens
  rw [hg, hg, List.mapM_congr h]

/-- A number comes from the numbers of all symbols, without a fault. -/
theorem of_answer_ok {n : Int64} (h : answer tokens resolved = .ok n) :
    fault? tokens = none ∧ ∀ s ∈ asked tokens, ∃ k, resolved s = .ok k := by
  obtain ⟨g, hg⟩ := answer_eq tokens
  rw [hg] at h
  obtain ⟨ns, hns, h⟩ := Except.exists_of_bind_ok h
  refine ⟨?_, fun s hs => ?_⟩
  · cases hfault : fault? tokens with
    | none => rfl
    | some fault =>
      rw [hfault] at h
      cases h
  · obtain ⟨k, -, hk⟩ := (Except.mapM_eq_ok_iff.1 hns).exists_of_mem_left hs
    exact ⟨k, hk⟩

/-- There is no number only if a symbol, the first of them, has none, or with the fault. -/
theorem answer_eq_error_iff {e : Halt} : answer tokens resolved = .error e ↔
    (∃ before s after, asked tokens = before ++ s :: after ∧
      (∀ x ∈ before, ∃ n, resolved x = .ok n) ∧ resolved s = .error e) ∨
    (∀ s ∈ asked tokens, ∃ n, resolved s = .ok n) ∧
      ∃ fault, fault? tokens = some fault ∧ e = .failure (.parse fault.message) := by
  obtain ⟨g, hg⟩ := answer_eq tokens
  rw [hg, ← Except.mapM_eq_error_iff]
  cases hns : (asked tokens).mapM resolved with
  | error e' =>
    show (Except.error e' : Except Halt Int64) = .error e ↔ _
    constructor
    · intro h
      cases h
      exact .inl rfl
    · rintro (h | ⟨hall, -⟩)
      · cases h
        rfl
      · obtain ⟨ns, hok⟩ := Except.exists_mapM_ok hall
        cases hns.symm.trans hok
  | ok ns =>
    have hall : ∀ s ∈ asked tokens, ∃ n, resolved s = .ok n := fun s hs =>
      have ⟨n, _, hn⟩ := (Except.mapM_eq_ok_iff.1 hns).exists_of_mem_left hs
      ⟨n, hn⟩
    show conclusion (fault? tokens) (g ns) = .error e ↔ _
    constructor
    · intro h
      cases hfault : fault? tokens with
      | none =>
        rw [hfault] at h
        cases h
      | some fault =>
        rw [hfault] at h
        cases h
        exact .inr ⟨hall, fault, rfl, rfl⟩
    · rintro (h | ⟨-, fault, hfault, rfl⟩)
      · cases h
      · rw [hfault]
        rfl

end

/-! ### Which symbols are asked for -/

mutual

/-- The symbols of a token are the values in it that are no numerals. -/
theorem mem_symbolsOf_iff (t : Token) {s : String} :
    s ∈ symbolsOf t ↔ value s ∈ flattenOne t ∧ isLiteral s = false := by
  cases t with
  | value v =>
    cases hliteral : isLiteral v with
    | true =>
      simp only [symbolsOf, flattenOne, hliteral, if_true, List.not_mem_nil, List.mem_singleton,
        Token.value.injEq, false_iff, not_and, Bool.not_eq_false]
      rintro rfl
      exact hliteral
    | false =>
      simp only [symbolsOf, flattenOne, hliteral, Bool.false_eq_true, if_false,
        List.mem_singleton, Token.value.injEq]
      refine ⟨fun h => ⟨h, h ▸ hliteral⟩, fun h => h.1⟩
  | group inner => rw [symbolsOf, flattenOne, mem_symbols_iff inner]
  | _ => simp [symbolsOf, flattenOne]

/-- The symbols of an expression are the values in it that are no numerals. -/
theorem mem_symbols_iff (ts : List Token) {s : String} :
    s ∈ symbols ts ↔ value s ∈ flatten ts ∧ isLiteral s = false := by
  cases ts with
  | nil => simp [symbols, flatten]
  | cons t ts =>
    rw [symbols, flatten, List.mem_append, List.mem_append, mem_symbolsOf_iff t,
      mem_symbols_iff ts, or_and_right]

end

mutual

/-- Every operand of a token is put out, and no other. -/
theorem operand_mem_emit (pending : Option BitOp) (t : Token) {s : String} :
    .operand s ∈ (emit pending t).1 ↔ value s ∈ flattenOne t := by
  cases t with
  | group inner => rw [emit, flattenOne, operand_mem_postfixFrom none inner]
  | _ => cases pending <;> simp [emit, flattenOne, flush]

/-- Every operand of an expression is put out, and no other. -/
theorem operand_mem_postfixFrom (pending : Option BitOp) (ts : List Token) {s : String} :
    .operand s ∈ postfixFrom pending ts ↔ value s ∈ flatten ts := by
  cases ts with
  | nil => cases pending <;> simp [postfixFrom, flatten, flush]
  | cons t ts =>
    rw [postfixFrom, flatten, List.mem_append, List.mem_append, operand_mem_emit pending t,
      operand_mem_postfixFrom _ ts]

end

theorem mem_of_mem_asksFrom {height : Nat} {ps : List Postfix} {s : String}
    (h : s ∈ asksFrom height ps) : .operand s ∈ ps ∧ isLiteral s = false := by
  induction ps generalizing height with
  | nil => cases h
  | cons p ps ih =>
    have hrest {height : Nat} (h : s ∈ asksFrom height ps) :
        .operand s ∈ p :: ps ∧ isLiteral s = false :=
      ⟨List.mem_cons_of_mem p (ih h).1, (ih h).2⟩
    cases p with
    | operand v =>
      rw [asksFrom] at h
      split at h
      · exact hrest h
      · rename_i hliteral
        rcases List.mem_cons.1 h with rfl | h
        · exact ⟨List.mem_cons_self, Bool.of_not_eq_true hliteral⟩
        · exact hrest h
    | invert => cases h
    | op o =>
      rcases height with _ | _ | height
      · cases h
      · cases h
      · exact hrest h

theorem mem_asksFrom {height : Nat} {ps : List Postfix} {s : String}
    (hfault : faultFrom? height ps = none) (hs : .operand s ∈ ps) (hliteral : isLiteral s = false) :
    s ∈ asksFrom height ps := by
  induction ps generalizing height with
  | nil => cases hs
  | cons p ps ih =>
    cases p with
    | operand v =>
      rw [asksFrom]
      rcases List.mem_cons.1 hs with h | h
      · cases h
        rw [hliteral]
        exact List.mem_cons_self
      · split
        · exact ih hfault h
        · exact List.mem_cons_of_mem v (ih hfault h)
    | invert => cases hfault
    | op o =>
      have hs : .operand s ∈ ps := (List.mem_cons.1 hs).resolve_left nofun
      rcases height with _ | _ | height
      · cases hfault
      · cases hfault
      · exact ih hfault hs

/-- Only symbols of the expression are asked for. -/
theorem mem_symbols_of_mem_asked {tokens : List Token} {s : String} (h : s ∈ asked tokens) :
    s ∈ symbols tokens := by
  rw [mem_symbols_iff]
  unfold asked at h
  split at h
  · rename_i v hflatten
    split at h
    · cases h
    · rename_i hliteral
      cases List.mem_singleton.1 h
      exact ⟨hflatten ▸ List.mem_cons_self, Bool.of_not_eq_true hliteral⟩
  · cases h
  · obtain ⟨hs, hliteral⟩ := mem_of_mem_asksFrom h
    exact ⟨(operand_mem_postfixFrom none tokens).1 hs, hliteral⟩

/-- All symbols are asked for, unless there is a fault. -/
theorem mem_asked_of_mem_symbols {tokens : List Token} {s : String}
    (hfault : fault? tokens = none) (h : s ∈ symbols tokens) : s ∈ asked tokens := by
  obtain ⟨hs, hliteral⟩ := (mem_symbols_iff tokens).1 h
  unfold fault? at hfault
  unfold asked
  split at hfault
  · rename_i v hflatten
    rw [hflatten] at hs
    cases List.mem_singleton.1 hs
    rw [hliteral]
    exact List.mem_cons_self
  · cases hfault
  · exact mem_asksFrom hfault ((operand_mem_postfixFrom none tokens).2 hs) hliteral

end TypedSheets.Token
