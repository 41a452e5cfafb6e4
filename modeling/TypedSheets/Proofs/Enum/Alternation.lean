import Mathlib.Data.List.Chain
import TypedSheets.Enum.Shape

/-!
# The grammar of well-formed expressions

The check of the shape goes over the tokens of an expression from left to right and remembers only
what stands before the next token; for a group it starts anew. What it accepts are the expressions
of a grammar: an operand, and a chain of operators with the operand behind each, where an operand is
a value or a group with an expression inside, with at most one `~` in front. The same expressions
can be told by their neighbours: on every level, that is, in the whole and inside of every group,
operands and operators alternate.

## Main definitions

* `Shape.Expression`, `Shape.Operand`, `Shape.Chain`, `Shape.Atom` — the grammar.
* `Shape.Completes` — what the rest of an expression is, given what stands before it.
* `Shape.Alternates`, `Shape.groups` — one level, and the levels inside.

## Main results

* `Shape.checkFrom_iff` — the check accepts what completes an expression.
* `Shape.completes_iff_neighbours` — what completes an expression, by its neighbours.
* `Shape.check_iff_expression` — the check accepts the expressions of the grammar.
-/

namespace TypedSheets.Shape

/-! ### The grammar -/

mutual

/-- An expression: an operand, and a chain behind it. -/
inductive Expression : List Token → Prop
  | intro {operand chain : List Token} (first : Operand operand) (rest : Chain chain) :
      Expression (operand ++ chain)

/-- An operand: an atom, with at most one `~` in front. -/
inductive Operand : List Token → Prop
  | plain {t : Token} (h : Atom t) : Operand [t]
  | inverted {t : Token} (h : Atom t) : Operand [.invert, t]

/-- Operators, each with the operand behind it. -/
inductive Chain : List Token → Prop
  | nil : Chain []
  | cons (op : BitOp) {operand chain : List Token} (h : Operand operand) (rest : Chain chain) :
      Chain (.op op :: (operand ++ chain))

/-- An atom: a value, or a group with an expression inside. -/
inductive Atom : Token → Prop
  | value (v : String) : Atom (.value v)
  | group {inner : List Token} (h : Expression inner) : Atom (.group inner)

end

/-- What the rest of an expression is, given what stands before it. -/
def Completes : Last → List Token → Prop
  | .start, ts | .op, ts => Expression ts
  | .invert, ts => ∃ t rest, ts = t :: rest ∧ Atom t ∧ Chain rest
  | .value, ts => Chain ts

/-! ### One token -/

/-- What stands before the next token if this one does. -/
def kind : Token → Last
  | .value _ | .group _ => .value
  | .op _ => .op
  | .invert => .invert

/-- What kind of token may stand behind another, or at the start: an operator behind an operand, an
operand behind `~`, and an operand or `~` elsewhere. -/
def Follows : Last → Last → Prop
  | .value, next => next = .op
  | .invert, next => next = .value
  | .start, next | .op, next => next = .value ∨ next = .invert

/-- A token has an expression inside if it is a group. -/
def Inside (t : Token) : Prop := ∀ inner, t = .group inner → Expression inner

theorem atom_iff {t : Token} : Atom t ↔ kind t = .value ∧ Inside t := by
  constructor
  · rintro (_ | h)
    · exact ⟨rfl, nofun⟩
    · refine ⟨rfl, ?_⟩
      rintro _ ⟨⟩
      exact h
  · rintro ⟨hkind, hinside⟩
    cases t with
    | value v => exact .value v
    | group inner => exact .group (hinside inner rfl)
    | op o => cases hkind
    | invert => cases hkind

/-- An operand stands at the front, or `~` and an operand. -/
theorem operand_append_iff {t : Token} {ts : List Token} {P : List Token → Prop} :
    (∃ operand rest, t :: ts = operand ++ rest ∧ Operand operand ∧ P rest) ↔
      Atom t ∧ P ts ∨ t = .invert ∧ ∃ u rest, ts = u :: rest ∧ Atom u ∧ P rest := by
  constructor
  · rintro ⟨_, rest, heq, h | h, hrest⟩
    · cases heq
      exact .inl ⟨h, hrest⟩
    · cases heq
      exact .inr ⟨rfl, _, _, rfl, h, hrest⟩
  · rintro (⟨h, hrest⟩ | ⟨rfl, u, rest, rfl, h, hrest⟩)
    · exact ⟨[t], ts, rfl, .plain h, hrest⟩
    · exact ⟨[.invert, u], rest, rfl, .inverted h, hrest⟩

theorem expression_iff {ts : List Token} :
    Expression ts ↔ ∃ operand rest, ts = operand ++ rest ∧ Operand operand ∧ Chain rest := by
  constructor
  · rintro ⟨first, rest⟩
    exact ⟨_, _, rfl, first, rest⟩
  · rintro ⟨operand, rest, rfl, first, hrest⟩
    exact .intro first hrest

theorem chain_cons_iff {t : Token} {ts : List Token} :
    Chain (t :: ts) ↔ kind t = .op ∧ Expression ts := by
  constructor
  · rintro (_ | ⟨op, h, rest⟩)
    exact ⟨rfl, .intro h rest⟩
  · rintro ⟨hkind, ⟨h, rest⟩⟩
    cases t with
    | op o => exact .cons o h rest
    | value v => cases hkind
    | group inner => cases hkind
    | invert => cases hkind

/-- An expression is complete behind an operand only. -/
theorem completes_nil {last : Last} : Completes last [] ↔ last = .value := by
  have hempty : ¬ Expression [] := by
    rw [expression_iff]
    rintro ⟨_, rest, heq, h | h, -⟩
    · cases heq
    · cases heq
  cases last with
  | start => exact iff_of_false hempty nofun
  | op => exact iff_of_false hempty nofun
  | invert => exact iff_of_false (by rintro ⟨_, _, ⟨⟩, -⟩) nofun
  | value => exact iff_of_true .nil rfl

/-- The next token of an expression is one that may follow, has an expression inside if it is a
group, and is followed by what completes the expression behind it. -/
theorem completes_cons {last : Last} {t : Token} {ts : List Token} :
    Completes last (t :: ts) ↔ Follows last (kind t) ∧ Inside t ∧ Completes (kind t) ts := by
  -- at the start and behind an operator the same is left to come
  have hexpression : Expression (t :: ts) ↔
      (kind t = .value ∨ kind t = .invert) ∧ Inside t ∧ Completes (kind t) ts := by
    rw [expression_iff, operand_append_iff, atom_iff]
    cases t with
    | value v => simp [kind, Completes]
    | group inner => simp [kind, Completes]
    | op o => simp [kind]
    | invert => simp [kind, Completes, Inside]
  cases last with
  | start => exact hexpression
  | op => exact hexpression
  | invert =>
    have hfirst : Completes .invert (t :: ts) ↔ Atom t ∧ Chain ts :=
      ⟨fun ⟨_, _, heq, h, hrest⟩ => by cases heq; exact ⟨h, hrest⟩,
        fun ⟨h, hrest⟩ => ⟨t, ts, rfl, h, hrest⟩⟩
    rw [hfirst, atom_iff, and_assoc]
    refine and_congr_right fun hkind => ?_
    rw [hkind]
    rfl
  | value =>
    have hop (hkind : kind t = .op) : Inside t := by
      rintro inner rfl
      cases hkind
    refine chain_cons_iff.trans (and_congr_right fun hkind => ?_)
    rw [hkind, and_iff_right (hop hkind)]
    rfl

/-! ### The check -/

theorem checkFrom_nil_iff {last : Last} : checkFrom last [] = .ok () ↔ last = .value := by
  rw [checkFrom]
  split
  · exact iff_of_true rfl ‹_›
  · exact iff_of_false nofun ‹_›

theorem checkFrom_cons_iff {last : Last} {t : Token} {ts : List Token} :
    checkFrom last (t :: ts) = .ok () ↔
      ∃ next, step last t = .ok next ∧ checkFrom next ts = .ok () := by
  rw [checkFrom]
  cases step last t with
  | ok next => simp
  | error fault => simp

mutual

/-- A token is passed if it may follow and, if it is a group, has an expression inside. -/
theorem step_iff (last next : Last) (t : Token) :
    step last t = .ok next ↔ Follows last (kind t) ∧ Inside t ∧ next = kind t := by
  cases t with
  | value v => cases last <;> simp [step, Follows, kind, Inside, eq_comm]
  | op o => cases last <;> simp [step, afterOp, Follows, kind, Inside, eq_comm]
  | invert => cases last <;> simp [step, afterInvert, Follows, kind, Inside, eq_comm]
  | group inner =>
    -- the check of a group starts anew, so that what it accepts is an expression
    have hinner : checkFrom .start inner = .ok () ↔ Inside (.group inner) := by
      rw [checkFrom_iff .start inner]
      exact ⟨fun h _ heq => by cases heq; exact h, fun h => h inner rfl⟩
    rw [← hinner]
    cases hcheck : checkFrom .start inner with
    | ok u => cases last <;> simp [step, hcheck, Follows, kind, eq_comm]
    | error fault => cases last <;> simp [step, hcheck, Follows, kind]

/-- **The check accepts what completes an expression**, given what stands before it. -/
theorem checkFrom_iff (last : Last) (ts : List Token) :
    checkFrom last ts = .ok () ↔ Completes last ts := by
  cases ts with
  | nil => rw [checkFrom_nil_iff, completes_nil]
  | cons t ts =>
    rw [checkFrom_cons_iff, completes_cons]
    constructor
    · rintro ⟨next, hstep, hrest⟩
      obtain ⟨hfollows, hinside, rfl⟩ := (step_iff last next t).1 hstep
      exact ⟨hfollows, hinside, (checkFrom_iff (kind t) ts).1 hrest⟩
    · rintro ⟨hfollows, hinside, hrest⟩
      exact ⟨kind t, (step_iff last (kind t) t).2 ⟨hfollows, hinside, rfl⟩,
        (checkFrom_iff (kind t) ts).2 hrest⟩

end

/-! ### Neighbours -/

/-- One level of an expression: an operand or `~` comes first, an operand comes last, and
neighbours may stand side by side. -/
structure Alternates (tokens : List Token) : Prop where
  /-- The first token. -/
  starts : ∃ t ∈ tokens.head?, Follows .start (kind t)
  /-- The last token. -/
  ends : ∃ t ∈ tokens.getLast?, kind t = .value
  /-- Neighbours. -/
  neighbours : tokens.IsChain fun s t => Follows (kind s) (kind t)

mutual

/-- What is inside of a token, if it is a group, and inside of the groups in it. -/
def groupsOf : Token → List (List Token)
  | .group inner => inner :: groups inner
  | _ => []

/-- What is inside of groups, at any depth. -/
def groups : List Token → List (List Token)
  | [] => []
  | t :: ts => groupsOf t ++ groups ts

end

/-- What completes an expression, by its neighbours. -/
theorem completes_iff_neighbours {last : Last} {ts : List Token} :
    Completes last ts ↔
      ((∀ t ∈ ts.head?, Follows last (kind t)) ∧ (ts.getLast?.map kind).getD last = .value ∧
        ts.IsChain fun s t => Follows (kind s) (kind t)) ∧ ∀ t ∈ ts, Inside t := by
  induction ts generalizing last with
  | nil => simp [completes_nil]
  | cons t ts ih =>
    have hlast : ((t :: ts).getLast?.map kind).getD last =
        (ts.getLast?.map kind).getD (kind t) := by
      rw [List.getLast?_cons]
      cases ts.getLast? <;> rfl
    rw [completes_cons, ih, hlast, List.isChain_cons, List.forall_mem_cons]
    simp only [List.head?_cons, Option.mem_some_iff, forall_eq']
    tauto

/-- An expression is a level on which operands and operators alternate, with expressions inside of
its groups. -/
theorem expression_iff_alternates {ts : List Token} :
    Expression ts ↔ Alternates ts ∧ ∀ t ∈ ts, Inside t := by
  have hstart : Expression ts ↔ Completes .start ts := Iff.rfl
  rw [hstart, completes_iff_neighbours]
  refine and_congr_left fun _ => ⟨fun ⟨hfirst, hends, hchain⟩ => ?_, fun h => ?_⟩
  · cases ts with
    | nil => cases hends
    | cons t ts =>
      have hlast := List.getLast?_eq_some_getLast (List.cons_ne_nil t ts)
      rw [hlast] at hends
      exact ⟨⟨t, rfl, hfirst t rfl⟩, ⟨_, hlast, hends⟩, hchain⟩
  · obtain ⟨⟨t, ht, hfirst⟩, ⟨u, hu, hends⟩, hchain⟩ := h
    refine ⟨fun t' ht' => ?_, ?_, hchain⟩
    · cases Option.mem_unique ht ht'
      exact hfirst
    · rw [Option.mem_def.1 hu]
      exact hends

mutual

/-- A group has an expression inside if and only if operands and operators alternate on every level
inside of it. -/
theorem inside_iff (t : Token) : Inside t ↔ ∀ level ∈ groupsOf t, Alternates level := by
  cases t with
  | group inner =>
    have hinner : Inside (.group inner) ↔ Expression inner :=
      ⟨fun h => h inner rfl, fun h _ heq => by cases heq; exact h⟩
    rw [hinner, expression_iff_alternates, inside_all_iff inner, groupsOf, List.forall_mem_cons]
  | value v => exact iff_of_true nofun nofun
  | op o => exact iff_of_true nofun nofun
  | invert => exact iff_of_true nofun nofun

/-- The groups among tokens have expressions inside if and only if operands and operators alternate
on every level inside of them. -/
theorem inside_all_iff (ts : List Token) :
    (∀ t ∈ ts, Inside t) ↔ ∀ level ∈ groups ts, Alternates level := by
  cases ts with
  | nil => exact iff_of_true nofun nofun
  | cons t ts =>
    rw [List.forall_mem_cons, inside_iff t, inside_all_iff ts, groups, List.forall_mem_append]

end

/-- **The check accepts exactly the expressions of the grammar**, whatever the tokens and however
deep their groups; and they are the tokens of which operands and operators alternate on every level,
with an operand at both ends, and `~` in front of operands only. -/
theorem check_iff_expression (tokens : List Token) :
    (check tokens = .ok () ↔ Expression tokens) ∧
      (Expression tokens ↔ ∀ level ∈ tokens :: groups tokens, Alternates level) := by
  refine ⟨checkFrom_iff .start tokens, ?_⟩
  rw [expression_iff_alternates, inside_all_iff, List.forall_mem_cons]

/-- An expression with a group in it: `~(A|~B)&C`. -/
theorem check_iff_expression_group :
    let inner := [.value "A", .op .or, .invert, .value "B"]
    let tokens := [.invert, .group inner, .op .and, .value "C"]
    check tokens = .ok () ∧ Expression tokens ∧ inner ∈ tokens :: groups tokens ∧
      Alternates inner := by
  intro inner tokens
  obtain ⟨hgrammar, hlevels⟩ := check_iff_expression tokens
  have hcheck : check tokens = .ok () := rfl
  have hmem : inner ∈ tokens :: groups tokens := List.mem_cons_of_mem _ (List.mem_cons_self ..)
  have hexpression := hgrammar.1 hcheck
  exact ⟨hcheck, hexpression, hmem, hlevels.1 hexpression inner hmem⟩

end TypedSheets.Shape
