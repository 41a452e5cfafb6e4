import TypedSheets.Proofs.Enum.Asking
import TypedSheets.Proofs.Relation.Expansion
import TypedSheets.Proofs.Session.Transparency

/-!
# Values of members as a solution

The values of members solve the equations that their definitions are, and nothing else does. A
member has a value only if everything that it leads to has one, so nothing there is missing and
nothing leads back to itself. The path of the members being computed is a path of mentions, so a
cycle that is found on it is there.

## Main definitions

* `EnumTables.valueOf` — the value of a definition, from what its symbols are resolved to.
* `EnumTables.Mentions` — the symbols that a definition mentions.
* `EnumTables.Breaks` — the first thing wrong with a member is an ill-formed definition.
* `Definitions.MemberComesTo` — what a member comes to whenever a session is asked for it.

## Main results

* `EnumTables.HasValue.solves` — values solve the definitions.
* `EnumTables.HasValue.unique` — nothing else does.
* `EnumTables.exists_flaw` — what a member without a value fails with is there.
* `EnumTables.Breaks.fresh_eq` — an ill-formed definition that is met first is reported.
* `Definitions.members_solve` — the values of members are the solution of their definitions.
-/

namespace TypedSheets

open Recall
open Relation (TransGen ReflTransGen)

namespace EnumTables

/-! ### Definitions as equations -/

/-- What a name that is no member is reported with. -/
def missing (ts : EnumTables) (enumName member : String) : Failure :=
  match ts.find? enumName with
  | none => .undefinedEnum enumName
  | some _ => .undefinedMember member enumName

/-- The expression that defines a member. -/
def expression (ts : EnumTables) (enumName member : String) : Except Failure (List Token) :=
  match (ts.find? enumName).bind (·.members.find? member) with
  | none => .error (ts.missing enumName member)
  | some definition => Token.parse definition.definition

/-- The value of the definition of a member, from what its symbols are resolved to. -/
def valueOf (ts : EnumTables) (enumName member : String)
    (resolved : String → Except Halt Int64) : Except Halt Int64 :=
  (ts.expression enumName member).mapError Halt.failure >>= fun tokens =>
    Token.answer tokens resolved

/-- The definition of a member mentions a symbol. -/
def Mentions (ts : EnumTables) (enumName member symbol : String) : Prop :=
  ∃ tokens, ts.expression enumName member = .ok tokens ∧ symbol ∈ Token.symbols tokens

/-- A member is defined through itself. -/
def Recurs (ts : EnumTables) (enumName member : String) : Prop :=
  TransGen (ts.Mentions enumName) member member

/-- A member has a value when it is computed on its own. -/
def HasValue (ts : EnumTables) (enumName member : String) : Prop :=
  ∃ v, (ts.memberValue enumName member).run.fresh = .ok v

variable {ts : EnumTables} {enumName x y s : String} {path : List String} {n : Nat} {v : Int64}
  {f : Failure} {tokens : List Token} {resolved resolved' : String → Except Halt Int64}

theorem mem_memberNames_iff :
    x ∈ ts.memberNames enumName ↔
      ((ts.find? enumName).bind (·.members.find? x)).isSome = true := by
  unfold memberNames
  cases ts.find? enumName with
  | none => simp
  | some table => exact Keyed.isSome_find?_iff.symm

theorem expression_of_not_mem (h : x ∉ ts.memberNames enumName) :
    ts.expression enumName x = .error (ts.missing enumName x) := by
  rw [mem_memberNames_iff, Option.not_isSome_iff_eq_none] at h
  rw [expression, h]

theorem mem_of_expression_ok (h : ts.expression enumName x = .ok tokens) :
    x ∈ ts.memberNames enumName := by
  by_contra hx
  rw [expression_of_not_mem hx] at h
  cases h

/-- The definition of a member is found; it may be ill-formed. -/
theorem parse_of_expression_error (hx : x ∈ ts.memberNames enumName)
    (h : ts.expression enumName x = .error f) : ∃ detail, f = .parse detail := by
  obtain ⟨definition, hdefinition⟩ := Option.isSome_iff_exists.1 (mem_memberNames_iff.1 hx)
  rw [expression, hdefinition] at h
  dsimp only at h
  unfold Token.parse at h
  cases hscan : Token.scan definition.definition with
  | ok tokens =>
    rw [hscan] at h
    cases h
  | error fault =>
    rw [hscan] at h
    cases h
    exact ⟨_, rfl⟩

/-- What a member is computed from is its expression, with the values of symbols as calls. -/
theorem memberBody_eq (member : String) (sub : String → Attempt Int64) :
    ts.memberBody enumName member sub =
      Attempt.ofExcept (ts.expression enumName member) >>= fun tokens =>
        Token.numberOf tokens sub := by
  unfold memberBody expression missing
  cases ts.find? enumName with
  | none => rfl
  | some table =>
    dsimp only [Option.bind_some]
    cases table.members.find? member <;> rfl

theorem fresh_memberBody (member : String) (sub : String → Attempt Int64) :
    (ts.memberBody enumName member sub).run.fresh =
      ts.valueOf enumName member fun s => (sub s).run.fresh := by
  rw [memberBody_eq, fresh_bind_run, valueOf]
  cases ts.expression enumName member with
  | error f => rfl
  | ok tokens => exact Token.fresh_numberOf tokens sub

/-- The values for the next bound are those of the definitions for this one. -/
theorem memberValues_succ (n : Nat) (member : String) :
    ts.memberValues enumName (n + 1) member =
      ts.valueOf enumName member (ts.memberValues enumName n) :=
  fresh_memberBody member _

/-- Along a path, a member on it is reported, and any other has the value of its definition. -/
theorem fresh_memberValueFrom (path : List String) (member : String) :
    (ts.memberValueFrom enumName path member).run.fresh =
      if member ∈ ts.memberNames enumName ∧ member ∈ path then
        .error (.failure (cycle enumName (path ++ [member])))
      else ts.valueOf enumName member fun s =>
        (ts.memberValueFrom enumName (path ++ [member]) s).run.fresh := by
  rw [memberValueFrom_eq, fresh_remember]
  split
  · rfl
  · exact fresh_memberBody member _

/-- A symbol that is asked for is mentioned. -/
theorem mentions_of_asked {before after : List String}
    (hx : ts.expression enumName x = .ok tokens)
    (hasked : Token.asked tokens = before ++ s :: after) : ts.Mentions enumName x s := by
  refine ⟨tokens, hx, Token.mem_symbols_of_mem_asked ?_⟩
  rw [hasked]
  exact List.mem_append_right before List.mem_cons_self

/-- Only the symbols that a definition mentions matter. -/
theorem valueOf_congr (h : ∀ s, ts.Mentions enumName x s → resolved s = resolved' s) :
    ts.valueOf enumName x resolved = ts.valueOf enumName x resolved' := by
  unfold valueOf
  cases hx : ts.expression enumName x with
  | error f => rfl
  | ok tokens =>
    exact Token.answer_congr fun s hs => h s ⟨tokens, hx, Token.mem_symbols_of_mem_asked hs⟩

/-- A definition has a value only if it has no fault and all symbols in it have values. -/
theorem of_valueOf_ok (h : ts.valueOf enumName x resolved = .ok v) :
    ∃ tokens, ts.expression enumName x = .ok tokens ∧ Token.fault? tokens = none ∧
      ∀ s ∈ Token.symbols tokens, ∃ k, resolved s = .ok k := by
  unfold valueOf at h
  cases hx : ts.expression enumName x with
  | error f =>
    rw [hx] at h
    cases h
  | ok tokens =>
    rw [hx] at h
    obtain ⟨hfault, hall⟩ := Token.of_answer_ok h
    exact ⟨tokens, rfl, hfault, fun s hs => hall s (Token.mem_asked_of_mem_symbols hfault hs)⟩

/-- A definition has no value if it is not there, if it cannot be read, if a symbol, the first of
them, has none, or for a fault. -/
theorem of_valueOf_error {e : Halt} (h : ts.valueOf enumName x resolved = .error e) :
    (x ∉ ts.memberNames enumName ∧ e = .failure (ts.missing enumName x)) ∨
    (∃ f, x ∈ ts.memberNames enumName ∧ ts.expression enumName x = .error f ∧ e = .failure f) ∨
    (∃ tokens before s after, ts.expression enumName x = .ok tokens ∧
      Token.asked tokens = before ++ s :: after ∧
      (∀ t ∈ before, ∃ k, resolved t = .ok k) ∧ resolved s = .error e) ∨
    ∃ tokens fault, ts.expression enumName x = .ok tokens ∧
      (∀ s ∈ Token.asked tokens, ∃ k, resolved s = .ok k) ∧ Token.fault? tokens = some fault ∧
      e = .failure (.parse fault.message) := by
  unfold valueOf at h
  by_cases hname : x ∈ ts.memberNames enumName
  · right
    cases hx : ts.expression enumName x with
    | error f =>
      rw [hx] at h
      cases h
      exact .inl ⟨f, hname, rfl, rfl⟩
    | ok tokens =>
      right
      rw [hx] at h
      rcases Token.answer_eq_error_iff.1 h with
        ⟨before, s, after, hasked, hbefore, hs⟩ | ⟨hall, fault, hfault, he⟩
      · exact .inl ⟨tokens, before, s, after, rfl, hasked, hbefore, hs⟩
      · exact .inr ⟨tokens, fault, rfl, hall, hfault, he⟩
  · left
    rw [expression_of_not_mem hname] at h
    cases h
    exact ⟨hname, rfl⟩

theorem Mentions.exists_resolved (hxs : ts.Mentions enumName x s)
    (h : ts.valueOf enumName x resolved = .ok v) : ∃ k, resolved s = .ok k := by
  obtain ⟨tokens, hx, hs⟩ := hxs
  obtain ⟨tokens', hx', -, hall⟩ := of_valueOf_ok h
  cases hx.symm.trans hx'
  exact hall s hs

/-! ### Values -/

/-- The value of a member is the one for a bound. -/
theorem fresh_eq_ok_iff :
    (ts.memberValue enumName x).run.fresh = .ok v ↔
      ∃ n, ts.memberValues enumName n x = .ok v := by
  constructor
  · exact fun h => ⟨_, memberValues_of_fresh (Nat.lt_succ_self _) h⟩
  · rintro ⟨n, h⟩
    exact Clear.catch_up (fun _ hl => absurd hl List.not_mem_nil) h

theorem hasValue_iff :
    ts.HasValue enumName x ↔ ∃ n v, ts.memberValues enumName n x = .ok v := by
  unfold HasValue
  simp only [fresh_eq_ok_iff]
  exact exists_comm

/-- What is mentioned by a member with a value has its value earlier. -/
theorem Mentions.exists_value (hxs : ts.Mentions enumName x s)
    (h : ts.memberValues enumName n x = .ok v) :
    ∃ k < n, ∃ w, ts.memberValues enumName k s = .ok w := by
  cases n with
  | zero => cases h
  | succ n =>
    rw [memberValues_succ] at h
    exact ⟨n, Nat.lt_succ_self n, hxs.exists_resolved h⟩

namespace HasValue

theorem mem_memberNames (h : ts.HasValue enumName x) : x ∈ ts.memberNames enumName := by
  obtain ⟨n, v, h⟩ := hasValue_iff.1 h
  cases n with
  | zero => cases h
  | succ n =>
    rw [memberValues_succ] at h
    obtain ⟨tokens, hx, -⟩ := of_valueOf_ok h
    exact mem_of_expression_ok hx

theorem of_mentions (h : ts.HasValue enumName x) (hxy : ts.Mentions enumName x y) :
    ts.HasValue enumName y := by
  obtain ⟨n, v, h⟩ := hasValue_iff.1 h
  obtain ⟨k, -, hk⟩ := hxy.exists_value h
  exact hasValue_iff.2 ⟨k, hk⟩

/-- Everything that a member with a value leads to has a value. -/
theorem of_leads (h : ts.HasValue enumName x) (hxy : ReflTransGen (ts.Mentions enumName) x y) :
    ts.HasValue enumName y := by
  induction hxy with
  | refl => exact h
  | tail _ hyz ih => exact ih.of_mentions hyz

/-- A member with a value is not defined through itself: what it mentions has its value earlier. -/
theorem not_recurs (h : ts.HasValue enumName x) : ¬ ts.Recurs enumName x := by
  rw [hasValue_iff] at h
  obtain ⟨n, v, h⟩ := h
  refine not_transGen_of_acc ?_
  induction n using Nat.strongRecOn generalizing x v with
  | ind n ih =>
    constructor
    intro y hxy
    obtain ⟨k, hk, w, hw⟩ := Mentions.exists_value hxy h
    exact ih k hk w hw

end HasValue

/-- The value of a member, if it has one. -/
def solution (ts : EnumTables) (enumName member : String) : Int64 :=
  match (ts.memberValue enumName member).run.fresh with
  | .ok v => v
  | .error _ => 0

/-- Numbers for members solve the definitions of all members that a member leads to. -/
def Solves (ts : EnumTables) (enumName x : String) (u : String → Int64) : Prop :=
  ∀ y, ReflTransGen (ts.Mentions enumName) x y →
    ts.valueOf enumName y (fun s => .ok (u s)) = .ok (u y)

theorem HasValue.fresh_eq (h : ts.HasValue enumName x) :
    (ts.memberValue enumName x).run.fresh = .ok (ts.solution enumName x) := by
  obtain ⟨v, h⟩ := h
  rw [solution, h]

/-- The values of members solve the definitions. -/
theorem HasValue.solves (h : ts.HasValue enumName x) :
    ts.Solves enumName x (ts.solution enumName) := by
  intro y hxy
  obtain ⟨n, hn⟩ := fresh_eq_ok_iff.1 (h.of_leads hxy).fresh_eq
  cases n with
  | zero => cases hn
  | succ n =>
    rw [memberValues_succ] at hn
    rw [← hn]
    refine valueOf_congr fun s hs => ?_
    obtain ⟨k, hk⟩ := hs.exists_resolved hn
    rw [solution, fresh_eq_ok_iff.2 ⟨n, hk⟩, hk]

/-- No other numbers solve the definitions. -/
theorem HasValue.unique (h : ts.HasValue enumName x) {u : String → Int64}
    (hu : ts.Solves enumName x u) (hxy : ReflTransGen (ts.Mentions enumName) x y) :
    u y = ts.solution enumName y := by
  have huy : ts.Solves enumName y u := fun z hyz => hu z (hxy.trans hyz)
  have hy := (h.of_leads hxy).fresh_eq
  rw [fresh_eq_ok_iff] at hy
  obtain ⟨n, hn⟩ := hy
  generalize ts.solution enumName y = v at hn
  clear h hu hxy
  induction n generalizing y v with
  | zero => cases hn
  | succ n ih =>
    rw [memberValues_succ] at hn
    have hsame : ts.valueOf enumName y (fun s => .ok (u s)) = .ok v := by
      rw [← hn]
      refine valueOf_congr fun s hs => ?_
      obtain ⟨k, hk⟩ := hs.exists_resolved hn
      rw [hk, ih (fun z hz => huy z (.head hs hz)) k hk]
    exact Except.ok.inj ((huy y .refl).symm.trans hsame)

/-! ### Failures -/

/-- The first thing wrong with a member, in the order of evaluation, is an ill-formed definition:
its own, behind symbols that all have values, or that of a symbol behind such symbols. -/
inductive Breaks (ts : EnumTables) (enumName : String) : String → Failure → Prop
  /-- The definition cannot be read. -/
  | unreadable {x : String} {f : Failure} (hx : x ∈ ts.memberNames enumName)
      (h : ts.expression enumName x = .error f) : Breaks ts enumName x f
  /-- All symbols that are asked for have values, and then there is a fault. -/
  | malformed {x : String} {tokens : List Token} {fault : Token.EvaluationFault}
      (h : ts.expression enumName x = .ok tokens)
      (hall : ∀ s ∈ Token.asked tokens, ts.HasValue enumName s)
      (hfault : Token.fault? tokens = some fault) : Breaks ts enumName x (.parse fault.message)
  /-- The symbols before one have values, and that one breaks. -/
  | inside {x y : String} {f : Failure} {tokens : List Token} {before after : List String}
      (h : ts.expression enumName x = .ok tokens)
      (hasked : Token.asked tokens = before ++ y :: after)
      (hbefore : ∀ s ∈ before, ts.HasValue enumName s)
      (hy : Breaks ts enumName y f) : Breaks ts enumName x f

/-- A member leads to what a failure names: a name that is missing, or a member that is defined
through itself; or an ill-formed definition is met first. -/
inductive Flaw (ts : EnumTables) (enumName x : String) : Failure → Prop
  /-- A name that is no member. -/
  | missing {y : String} (hxy : ReflTransGen (ts.Mentions enumName) x y)
      (hy : y ∉ ts.memberNames enumName) : Flaw ts enumName x (ts.missing enumName y)
  /-- A member that is defined through itself. -/
  | cycle {y : String} (hxy : ReflTransGen (ts.Mentions enumName) x y)
      (hy : ts.Recurs enumName y) (path : List String) :
      Flaw ts enumName x (cycle enumName (path ++ [y]))
  /-- An ill-formed definition. -/
  | breaks {f : Failure} (h : ts.Breaks enumName x f) : Flaw ts enumName x f

/-- A path that leads to a member leads on to what comes behind it. -/
theorem forall_transGen_concat {r : String → String → Prop}
    (hpath : ∀ l ∈ path, TransGen r l x) (hxy : r x y) : ∀ l ∈ path ++ [x], TransGen r l y := by
  intro l hl
  rcases List.mem_append.1 hl with hl | hl
  · exact (hpath l hl).tail hxy
  · cases List.mem_singleton.1 hl
    exact .single hxy

/-- A member that has a value along a path has one. -/
theorem hasValue_of_exists_fresh
    (h : ∃ v, (ts.memberValueFrom enumName path x).run.fresh = .ok v) :
    ts.HasValue enumName x := by
  obtain ⟨v, h⟩ := h
  exact hasValue_iff.2 ⟨_, v, memberValues_of_fresh (Nat.lt_succ_self _) h⟩

/-- What a member fails with that comes along a path of mentions is there. -/
theorem exists_flaw (hpath : ∀ l ∈ path, TransGen (ts.Mentions enumName) l x) {e : Halt}
    (h : (ts.memberValueFrom enumName path x).run.fresh = .error e) :
    ∃ f, e = .failure f ∧ ts.Flaw enumName x f := by
  induction hn : Walk.remaining (ts.memberNames enumName) path using Nat.strongRecOn
    generalizing path x with
  | ind n ih =>
    rw [fresh_memberValueFrom] at h
    split at h
    · rename_i hmem
      cases h
      exact ⟨_, rfl, .cycle .refl (hpath x hmem.2) _⟩
    · rename_i hmem
      rcases of_valueOf_error h with ⟨hname, rfl⟩ | ⟨f, hname, hx, rfl⟩ |
        ⟨tokens, before, s, after, hx, hasked, hbefore, hs⟩ |
        ⟨tokens, fault, hx, hall, hfault, rfl⟩
      · exact ⟨_, rfl, .missing .refl hname⟩
      · exact ⟨f, rfl, .breaks (.unreadable hname hx)⟩
      · have hname : x ∈ ts.memberNames enumName := mem_of_expression_ok hx
        have hxs : ts.Mentions enumName x s := mentions_of_asked hx hasked
        have hless := Walk.remaining_lt hname (fun hpath => hmem ⟨hname, hpath⟩)
          (fun _ hx => List.mem_append_left [x] hx)
          (List.mem_append_right path (List.mem_singleton.2 rfl))
        obtain ⟨f, rfl, hflaw⟩ := ih _ (hn ▸ hless) (forall_transGen_concat hpath hxs) hs rfl
        refine ⟨f, rfl, ?_⟩
        cases hflaw with
        | missing hsy hy => exact .missing (.head hxs hsy) hy
        | cycle hsy hy path => exact .cycle (.head hxs hsy) hy path
        | breaks hs =>
          refine .breaks (.inside hx hasked (fun t ht => ?_) hs)
          exact hasValue_of_exists_fresh (hbefore t ht)
      · refine ⟨_, rfl, .breaks (.malformed hx (fun s hs => ?_) hfault)⟩
        exact hasValue_of_exists_fresh (hall s hs)

/-- A member has a value, or fails with what is there. -/
theorem hasValue_or_flaw (ts : EnumTables) (enumName x : String) :
    (∃ v, (ts.memberValue enumName x).run.fresh = .ok v) ∨
      ∃ f, (ts.memberValue enumName x).run.fresh = .error (.failure f) ∧
        ts.Flaw enumName x f := by
  cases hx : (ts.memberValue enumName x).run.fresh with
  | ok v => exact .inl ⟨v, rfl⟩
  | error e =>
    obtain ⟨f, rfl, hflaw⟩ := exists_flaw (List.forall_mem_nil _) hx
    exact .inr ⟨f, rfl, hflaw⟩

/-- The evaluation of a member stops at a symbol, which is the first without a value. -/
def StopsAt (ts : EnumTables) (enumName x y : String) : Prop :=
  ∃ tokens before after, ts.expression enumName x = .ok tokens ∧
    Token.asked tokens = before ++ y :: after ∧ (∀ s ∈ before, ts.HasValue enumName s) ∧
    ¬ ts.HasValue enumName y

/-- Evaluation stops at one symbol at most. -/
theorem StopsAt.unique {y' : String} (h : ts.StopsAt enumName x y)
    (h' : ts.StopsAt enumName x y') : y = y' := by
  obtain ⟨tokens, before, after, hx, hasked, hbefore, hy⟩ := h
  obtain ⟨tokens', before', after', hx', hasked', hbefore', hy'⟩ := h'
  cases hx.symm.trans hx'
  rw [hasked] at hasked'
  exact List.eq_of_append_cons hasked' hbefore hy hbefore' hy'

theorem StopsAt.not_hasValue (h : ts.StopsAt enumName x y) : ¬ ts.HasValue enumName x := by
  obtain ⟨tokens, before, after, hx, hasked, -, hy⟩ := h
  intro hvalue
  exact hy (hvalue.of_mentions (mentions_of_asked hx hasked))

/-- None of the members on a path on which evaluation stops has a value. -/
theorem not_hasValue_of_stops (hpath : ∀ l ∈ path, TransGen (ts.StopsAt enumName) l x)
    (hx : ¬ ts.HasValue enumName x) : ∀ l ∈ path ++ [x], ¬ ts.HasValue enumName l := by
  intro l hl
  rcases List.mem_append.1 hl with hl | hl
  · obtain ⟨y, hstops, -⟩ := TransGen.head'_iff.1 (hpath l hl)
    exact hstops.not_hasValue
  · cases List.mem_singleton.1 hl
    exact hx

/-- A path of members without values does not keep a member from its value. -/
theorem HasValue.exists_fresh (h : ts.HasValue enumName x)
    (hpath : ∀ l ∈ path, ¬ ts.HasValue enumName l) :
    ∃ v, (ts.memberValueFrom enumName path x).run.fresh = .ok v := by
  obtain ⟨n, v, hv⟩ := hasValue_iff.1 h
  have hclear : ts.Clear enumName path x := fun l hl k w hw =>
    absurd (hasValue_iff.2 ⟨k, w, hw⟩) (hpath l hl)
  exact ⟨v, hclear.catch_up hv⟩

namespace Breaks

/-- What is wrong is a definition, and no reference. -/
theorem exists_detail (h : ts.Breaks enumName x f) : ∃ detail, f = .parse detail := by
  induction h with
  | unreadable hx h => exact parse_of_expression_error hx h
  | malformed h hall hfault => exact ⟨_, rfl⟩
  | inside h hasked hbefore hy ih => exact ih

theorem not_hasValue (h : ts.Breaks enumName x f) : ¬ ts.HasValue enumName x := by
  induction h with
  | unreadable hx h =>
    intro hvalue
    have hsolves := hvalue.solves _ .refl
    rw [valueOf, h] at hsolves
    cases hsolves
  | malformed h hall hfault =>
    intro hvalue
    obtain ⟨tokens, hx, hnone, -⟩ := of_valueOf_ok (hvalue.solves _ .refl)
    cases h.symm.trans hx
    cases hfault.symm.trans hnone
  | inside h hasked hbefore hy ih => exact StopsAt.not_hasValue ⟨_, _, _, h, hasked, hbefore, ih⟩

/-- Evaluation that stops at an ill-formed definition does not go in circles. -/
theorem not_stops_back (h : ts.Breaks enumName x f) :
    ¬ TransGen (ts.StopsAt enumName) x x := by
  refine not_transGen_of_acc ?_
  induction h with
  | unreadable hx h =>
    constructor
    rintro y ⟨tokens, -, -, hx, -⟩
    cases h.symm.trans hx
  | malformed h hall hfault =>
    constructor
    rintro y ⟨tokens, before, after, hx, hasked, -, hy⟩
    cases h.symm.trans hx
    exact absurd (hall y (by simp [hasked])) hy
  | inside h hasked hbefore hy ih =>
    constructor
    intro y hstops
    cases hstops.unique ⟨_, _, _, h, hasked, hbefore, hy.not_hasValue⟩
    exact ih

/-- A member that evaluation stops at on the way to an ill-formed definition is not on the path. -/
theorem fresh_eq_valueOf (h : ts.Breaks enumName x f)
    (hpath : ∀ l ∈ path, TransGen (ts.StopsAt enumName) l x) :
    (ts.memberValueFrom enumName path x).run.fresh = ts.valueOf enumName x fun s =>
      (ts.memberValueFrom enumName (path ++ [x]) s).run.fresh := by
  rw [fresh_memberValueFrom, if_neg fun hmem => h.not_stops_back (hpath x hmem.2)]

/-- An ill-formed definition that is met first is reported, along every path on which evaluation
stops. -/
theorem fresh_along (h : ts.Breaks enumName x f)
    (hpath : ∀ l ∈ path, TransGen (ts.StopsAt enumName) l x) :
    (ts.memberValueFrom enumName path x).run.fresh = .error (.failure f) := by
  induction h generalizing path with
  | unreadable hx h =>
    rw [(unreadable hx h).fresh_eq_valueOf hpath, valueOf, h]
    rfl
  | malformed h hall hfault =>
    have hbreaks := malformed h hall hfault
    have hvalueless := not_hasValue_of_stops hpath hbreaks.not_hasValue
    rw [hbreaks.fresh_eq_valueOf hpath, valueOf, h]
    refine Token.answer_eq_error_iff.2 (.inr ⟨fun s hs => ?_, _, hfault, rfl⟩)
    exact (hall s hs).exists_fresh hvalueless
  | @inside x y f tokens before after h hasked hbefore hy ih =>
    have hbreaks := inside h hasked hbefore hy
    have hvalueless := not_hasValue_of_stops hpath hbreaks.not_hasValue
    have hstops : ts.StopsAt enumName x y := ⟨_, _, _, h, hasked, hbefore, hy.not_hasValue⟩
    rw [hbreaks.fresh_eq_valueOf hpath, valueOf, h]
    refine Token.answer_eq_error_iff.2 (.inl ⟨before, y, after, hasked, fun s hs => ?_, ?_⟩)
    · exact (hbefore s hs).exists_fresh hvalueless
    · exact ih (forall_transGen_concat hpath hstops)

/-- An ill-formed definition that is met first is reported. -/
theorem fresh_eq (h : ts.Breaks enumName x f) :
    (ts.memberValue enumName x).run.fresh = .error (.failure f) :=
  h.fresh_along (List.forall_mem_nil _)

end Breaks

/-- A name that is missing is reported as a reference. -/
theorem exists_detail_of_missing (ts : EnumTables) (enumName x : String) :
    ∃ detail, ts.missing enumName x = .reference detail := by
  unfold missing
  cases ts.find? enumName with
  | none => exact ⟨_, rfl⟩
  | some table => exact ⟨_, rfl⟩

/-- A name that is missing is not reported as a cycle. -/
theorem missing_ne_cycle (x : String) (path : List String) :
    ts.missing enumName x ≠ cycle enumName path := by
  unfold missing
  cases ts.find? enumName with
  | none => simp [Failure.undefinedEnum, cycle, toString, String.ext_iff]
  | some table => simp [Failure.undefinedMember, cycle, toString, String.ext_iff]

namespace Flaw

/-- Unless an ill-formed definition is met first, a failure is one of a reference. -/
theorem exists_detail (h : ts.Flaw enumName x f) (hwell : ∀ f, ¬ ts.Breaks enumName x f) :
    ∃ detail, f = .reference detail := by
  cases h with
  | missing hxy hy => exact exists_detail_of_missing ts enumName _
  | cycle hxy hy path => exact ⟨_, rfl⟩
  | breaks h => exact absurd h (hwell f)

/-- Without a cycle there, none is reported. -/
theorem ne_cycle (h : ts.Flaw enumName x f)
    (huntangled : ∀ y, ReflTransGen (ts.Mentions enumName) x y → ¬ ts.Recurs enumName y)
    (path : List String) : f ≠ EnumTables.cycle enumName path := by
  cases h with
  | missing hxy hy => exact missing_ne_cycle _ path
  | cycle hxy hy => exact absurd hy (huntangled _ hxy)
  | breaks h =>
    obtain ⟨detail, rfl⟩ := h.exists_detail
    exact nofun

end Flaw

end EnumTables

namespace Definitions

open EnumTables

variable {d : Definitions} {enumName member : String} {a : Except Halt Int64}

/-- Whenever a member is asked for, and whatever has been asked before or is being asked at the same
time, it comes to `a`. -/
def MemberComesTo (d : Definitions) (enumName member : String) (a : Except Halt Int64) : Prop :=
  ∀ tasks m, d.Reaches tasks m → ∀ c : Recall (Except Halt Int64),
    ⟨.memberValue enumName member, c⟩ ∈ tasks → (c.run m).1 = a

/-- A member comes to what it comes to on its own. -/
theorem memberComesTo_iff :
    d.MemberComesTo enumName member a ↔ (d.enums.memberValue enumName member).run.fresh = a := by
  constructor
  · intro h
    have hreach : d.Reaches _ _ := .begin { defs := d } (.memberValue enumName member) rfl .start
    have ha := h _ _ hreach _ List.mem_cons_self
    obtain ⟨-, -, hmembers, -⟩ := hreach.transparent
    exact (hmembers _ _ _ List.mem_cons_self).symm.trans ha
  · rintro rfl tasks m hreach c hc
    obtain ⟨-, -, hmembers, -⟩ := hreach.transparent
    exact hmembers enumName member c hc

/-- **The values of members are the solution of their definitions**, whatever has been asked of
sessions with these definitions before, and in whatever order the steps were taken. Every member
comes to a number or to a failure. If it comes to a number, then so does everything that it leads
to: nothing there is missing or defined through itself, the numbers solve the definitions, and no
others do. A failure names a missing name or a cycle that the member leads to, unless an ill-formed
definition is met first, which is then the failure. So a member that leads to a missing name or to a
cycle fails with a reference unless such a definition is met, and one that leads to no cycle is
never reported as one, however often a member is shared. -/
theorem members_solve (d : Definitions) (enumName member : String) :
    ∃ a, d.MemberComesTo enumName member a ∧
      ((∃ v, a = .ok v) ∨ ∃ f, a = .error (.failure f) ∧ d.enums.Flaw enumName member f) ∧
      (∀ v, a = .ok v → ∃ w : String → Int64, w member = v ∧
        (∀ y, ReflTransGen (d.enums.Mentions enumName) member y →
          y ∈ d.enums.memberNames enumName ∧ ¬ d.enums.Recurs enumName y ∧
          d.MemberComesTo enumName y (.ok (w y)) ∧
          d.enums.valueOf enumName y (fun s => .ok (w s)) = .ok (w y)) ∧
        ∀ u, d.enums.Solves enumName member u → u member = v) ∧
      (∀ f, d.enums.Breaks enumName member f → a = .error (.failure f)) ∧
      ((∃ y, ReflTransGen (d.enums.Mentions enumName) member y ∧
          (y ∉ d.enums.memberNames enumName ∨ d.enums.Recurs enumName y)) →
        (∀ f, ¬ d.enums.Breaks enumName member f) →
        ∃ detail, a = .error (.failure (.reference detail))) ∧
      ((∀ y, ReflTransGen (d.enums.Mentions enumName) member y → ¬ d.enums.Recurs enumName y) →
        ∀ path, a ≠ .error (.failure (cycle enumName path))) := by
  have hends := d.enums.hasValue_or_flaw enumName member
  refine ⟨_, memberComesTo_iff.2 rfl, hends, fun v hv => ?_, fun f hf => hf.fresh_eq, ?_, ?_⟩
  · have hvalue : d.enums.HasValue enumName member := ⟨v, hv⟩
    have hsolution : d.enums.solution enumName member = v :=
      Except.ok.inj (hvalue.fresh_eq.symm.trans hv)
    refine ⟨d.enums.solution enumName, hsolution, fun y hy => ?_, fun u hu => ?_⟩
    · have hyvalue := hvalue.of_leads hy
      exact ⟨hyvalue.mem_memberNames, hyvalue.not_recurs, memberComesTo_iff.2 hyvalue.fresh_eq,
        hvalue.solves y hy⟩
    · rw [hvalue.unique hu .refl, hsolution]
  · rintro ⟨y, hy, hwrong⟩ hwell
    rcases hends with hvalue | ⟨f, hf, hflaw⟩
    · have hyvalue := HasValue.of_leads hvalue hy
      rcases hwrong with hmissing | hrecurs
      · exact absurd hyvalue.mem_memberNames hmissing
      · exact absurd hrecurs hyvalue.not_recurs
    · obtain ⟨detail, rfl⟩ := hflaw.exists_detail hwell
      exact ⟨detail, hf⟩
  · intro huntangled path hcycle
    rcases hends with ⟨v, hv⟩ | ⟨f, hf, hflaw⟩
    · cases hv.symm.trans hcycle
    · cases hf.symm.trans hcycle
      exact hflaw.ne_cycle huntangled path rfl

/-- Lights of which one is part of two others, which are both part of a third, and one that is
defined through itself. -/
def lights : Definitions where
  enums := EnumTables.ofSheets
    [{ location := { file := "enums", sheet := "Lights", row := none }, table := "Lights",
       members := [("Red", "1"), ("Warm", "Red | 2"), ("Cold", "Red | 4"),
         ("White", "Warm | Cold"), ("Flash", "Red | Flash")] }]

/-- The light that two others share is no cycle: everything that the third leads to has its value.
The light that is defined through itself is reported, as no ill-formed definition is met. -/
theorem lights_solve :
    (∃ w : String → Int64, w "White" = 7 ∧
      ∀ y, ReflTransGen (lights.enums.Mentions "Lights") "White" y →
        lights.MemberComesTo "Lights" y (.ok (w y))) ∧
    lights.enums.Recurs "Lights" "Flash" ∧ (∀ f, ¬ lights.enums.Breaks "Lights" "Flash" f) ∧
      ∃ detail, lights.MemberComesTo "Lights" "Flash" (.error (.failure (.reference detail))) := by
  obtain ⟨a, ha, -, hsolution, -⟩ := members_solve lights "Lights" "White"
  obtain ⟨b, hb, -, -, hbreaks, hreference, -⟩ := members_solve lights "Lights" "Flash"
  have hrecurs : lights.enums.Recurs "Lights" "Flash" := by
    have hsymbols : ((lights.enums.expression "Lights" "Flash").map Token.symbols).toOption =
        some ["Red", "Flash"] := by
      decide +kernel
    cases h : lights.enums.expression "Lights" "Flash" with
    | error f =>
      rw [h] at hsymbols
      cases hsymbols
    | ok tokens =>
      rw [h] at hsymbols
      have htokens : Token.symbols tokens = ["Red", "Flash"] := Option.some.inj hsymbols
      exact .single ⟨tokens, h, by simp [htokens]⟩
  have hwell : ∀ f, ¬ lights.enums.Breaks "Lights" "Flash" f := by
    intro f hf
    have hreport : (match (lights.enums.memberValue "Lights" "Flash").run.fresh with
        | .error e => some e
        | .ok _ => none) = some (.failure (cycle "Lights" ["Flash", "Flash"])) := by
      decide +kernel
    obtain ⟨detail, rfl⟩ := hf.exists_detail
    rw [memberComesTo_iff.1 hb, hbreaks _ hf] at hreport
    cases hreport
  refine ⟨?_, hrecurs, hwell, ?_⟩
  · have hwhite : a.toOption = some 7 := by
      rw [← memberComesTo_iff.1 ha]
      decide +kernel
    cases a with
    | error e => cases hwhite
    | ok v =>
      obtain ⟨w, hw, hleads, -⟩ := hsolution v rfl
      exact ⟨w, hw.trans (Option.some.inj hwhite), fun y hy => (hleads y hy).2.2.1⟩
  · obtain ⟨detail, rfl⟩ := hreference ⟨"Flash", .refl, .inr hrecurs⟩ hwell
    exact ⟨detail, hb⟩

end Definitions

end TypedSheets
