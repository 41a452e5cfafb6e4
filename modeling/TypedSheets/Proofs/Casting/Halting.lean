import TypedSheets.Proofs.Casting.Confined

/-!
# How casts stop

A cast that has no value stops with a failure, except in two cases: a text is read as a span whose
parts add up to more than a span can be, or the cast of a part stops in another way. Nothing else
that a cast does can stop it. The failure names a cycle of constants only if a constant is met while
it is being followed; no other failure reads like that one.

## Main definitions

* `Failure.Acyclic`, `Failure.Ordinary` — a failure that names no cycle of constants, and one that
  is no conflict of definitions either.
* `Attempt.StopsIn` — how an attempt can stop.
* `Definitions.SpanOverflow` — a cell whose text is read as a span beyond the bounds of spans.
* `Definitions.Meets` — the cells that the cast of a cell comes to.

## Main results

* `EnumTables.stopsIn_evaluate` — expressions over enum members stop with failures only.
* `Definitions.errorsIn_plainValue` — how the cast of a cell can stop, from its parts.
* `Definitions.errorsIn_values` — how the cast of a cell can stop, from what it comes to.
-/

namespace TypedSheets

open Recall

/-- A failure that names no cycle of constants. -/
def Failure.Acyclic (f : Failure) : Prop :=
  ∀ trail, f ≠ constantCycle trail

/-- A failure that a cast can have without following constants: it names no cycle of them, and it is
no conflict of definitions. -/
structure Failure.Ordinary (f : Failure) : Prop where
  /-- No cycle of constants. -/
  acyclic : f.Acyclic
  /-- No conflict. -/
  noConflict (detail : String) : f ≠ .schemaConflict detail

namespace Failure

theorem ordinary_parse (detail : String) : (parse detail).Ordinary :=
  ⟨fun _ => nofun, fun _ => nofun⟩

theorem ordinary_nullValue (type : String) : (nullValue type).Ordinary :=
  ⟨fun _ => nofun, fun _ => nofun⟩

theorem ordinary_typeCast (value type detail : String) : (typeCast value type detail).Ordinary :=
  ⟨fun _ => nofun, fun _ => nofun⟩

/-- A reference that is described in other words names no cycle of constants. -/
theorem ordinary_reference {detail : String}
    (h : ¬ "constant cycle: ".toList <+: detail.toList) : (reference detail).Ordinary := by
  refine ⟨fun trail heq => ?_, fun _ => nofun⟩
  rw [constantCycle, reference.injEq] at heq
  rw [heq, String.toList_append] at h
  exact h (List.prefix_append _ _)

theorem ordinary_undefinedTable (table : String) : (undefinedTable table).Ordinary :=
  ordinary_reference (by simp [toString, String.toList_append])

theorem ordinary_undefinedColumn (column table : String) :
    (undefinedColumn column table).Ordinary :=
  ordinary_reference (by simp [toString, String.toList_append])

theorem ordinary_unkeyedTable (table : String) : (unkeyedTable table).Ordinary :=
  ordinary_reference (by simp [toString, String.toList_append])

theorem ordinary_undefinedEnum (enumName : String) : (undefinedEnum enumName).Ordinary :=
  ordinary_reference (by simp [toString, String.toList_append])

theorem ordinary_undefinedMember (member enumName : String) :
    (undefinedMember member enumName).Ordinary :=
  ordinary_reference (by simp [toString, String.toList_append])

end Failure

theorem TypeExpr.ordinary_of_parse (text : String) : (parse text).ErrorsIn Failure.Ordinary := by
  unfold parse
  cases parse? text with
  | ok e => exact .ok e
  | error f => exact .error (Failure.ordinary_parse f.message)

theorem Call.ordinary_of_parse (text : String) : (parse text).ErrorsIn Failure.Ordinary := by
  unfold parse
  split
  · exact .ok _
  · exact .error (Failure.ordinary_parse _)

theorem Token.ordinary_of_parse (text : String) : (parse text).ErrorsIn Failure.Ordinary := by
  unfold parse
  cases scan text with
  | ok tokens => exact .ok tokens
  | error f => exact .error (Failure.ordinary_parse f.message)

theorem Schemas.ordinary_of_linked (ss : Schemas) (target : Target) :
    (ss.linked target).ErrorsIn Failure.Ordinary := by
  unfold linked
  split
  · exact .error (Failure.ordinary_undefinedTable _)
  · split
    · split
      · exact .ok _
      · exact .error (Failure.ordinary_undefinedColumn _ _)
    · split
      · exact .ok _
      · exact .error (Failure.ordinary_unkeyedTable _)

theorem Schemas.ordinary_of_rootFrom (ss : Schemas) (visited : List (String × String))
    (type : String) : (ss.rootFrom visited type).ErrorsIn Failure.Ordinary := by
  fun_induction rootFrom ss visited type with
  | case1 visited type f hfault => exact .error (TypeExpr.ordinary_of_parse type f hfault)
  | case2 visited type expr hexpr hsequence => exact .ok _
  | case3 visited type expr hexpr hsequence hrelation => exact .ok _
  | case4 visited type expr hexpr hsequence target hrelation f hfault =>
    exact .error (ss.ordinary_of_linked target f hfault)
  | case5 visited type expr hexpr hsequence target hrelation column hcolumn link hseen =>
    exact .error (Failure.ordinary_reference (by simp [String.toList_append]))
  | case6 visited type expr hexpr hsequence target hrelation column hcolumn link hnew hlt ih =>
    exact ih.map

/-- Without a memory, an attempt stops in no other way than the given ones. -/
def Attempt.StopsIn {α : Type} (P : Halt → Prop) (a : Attempt α) : Prop :=
  a.run.fresh.ErrorsIn P

/-- All failures are among the ways to stop. -/
def Halt.Fails (P : Halt → Prop) : Prop :=
  ∀ f, P (.failure f)

/-- All ordinary failures are among the ways to stop. -/
def Halt.FailsOrdinary (P : Halt → Prop) : Prop :=
  ∀ f : Failure, f.Ordinary → P (.failure f)

theorem Halt.Fails.ordinary {P : Halt → Prop} (hP : Halt.Fails P) : Halt.FailsOrdinary P :=
  fun f _ => hP f

/-- The ordinary way to stop: with a failure. -/
def Halt.IsFailure : Halt → Prop
  | failure _ => True
  | _ => False

namespace Attempt

variable {α β ι : Type} {P : Halt → Prop}

theorem stopsIn_pure (a : α) : StopsIn P (pure a : Attempt α) :=
  .ok a

theorem stopsIn_throw {h : Halt} (hh : P h) : StopsIn P (throw h : Attempt α) :=
  .error hh

theorem stopsIn_fail (hP : Halt.FailsOrdinary P) {f : Failure} (hf : f.Ordinary) :
    StopsIn P (fail f : Attempt α) :=
  stopsIn_throw (hP f hf)

theorem stopsIn_fault (hP : Halt.FailsOrdinary P) (value root detail : String) :
    StopsIn P (throw (castFault value root detail) : Attempt α) :=
  stopsIn_throw (hP _ (Failure.ordinary_typeCast value root detail))

theorem StopsIn.bind {a : Attempt α} {f : α → Attempt β} (ha : StopsIn P a)
    (hf : ∀ x, a.run.fresh = .ok x → StopsIn P (f x)) : StopsIn P (a >>= f) := by
  rw [StopsIn, fresh_bind_run]
  cases h : a.run.fresh with
  | ok x => exact hf x h
  | error e => exact .error (ha e h)

theorem StopsIn.map {a : Attempt α} {f : α → β} (ha : StopsIn P a) : StopsIn P (f <$> a) := by
  rw [← bind_pure_comp]
  exact ha.bind fun x _ => stopsIn_pure _

theorem stopsIn_mapM {f : ι → Attempt α} {l : List ι} (h : ∀ i ∈ l, StopsIn P (f i)) :
    StopsIn P (l.mapM f) := by
  induction l with
  | nil =>
    rw [List.mapM_nil]
    exact stopsIn_pure []
  | cons i l ih =>
    rw [List.forall_mem_cons] at h
    rw [List.mapM_cons]
    exact h.1.bind fun a _ => (ih h.2).bind fun as _ => stopsIn_pure _

theorem stopsIn_ofExcept (hP : Halt.FailsOrdinary P) {r : Except Failure α}
    (hr : r.ErrorsIn Failure.Ordinary) : StopsIn P (ofExcept r) := by
  cases r with
  | ok a => exact stopsIn_pure a
  | error f => exact stopsIn_fail hP (hr f rfl)

theorem StopsIn.remember {q : Query} {a : Attempt q.Answer} (ha : StopsIn P a) :
    StopsIn P (remember q a) := by
  rw [StopsIn, fresh_remember]
  exact ha

/-- A computation that cannot fail does not stop. -/
theorem stopsIn_lift (c : Recall α) : StopsIn P (ExceptT.lift c) := by
  have hok : (ExceptT.lift c : Attempt α).run.fresh = .ok c.fresh := fresh_map Except.ok c
  intro h hh
  rw [hok] at hh
  cases hh

/-- Failures that are turned into results do not stop an attempt any more. -/
theorem StopsIn.result {a : Attempt α} (ha : StopsIn P a) : StopsIn P a.result := by
  intro e he
  replace he := (fresh_bind a.run _).symm.trans he
  rcases h : a.run.fresh with (f | _ | _) | _ <;> rw [h] at he <;> cases he <;> exact ha _ h

/-- An attempt that fails at worst always comes to a result. -/
theorem StopsIn.exists_result {a : Attempt α} (ha : StopsIn Halt.IsFailure a) :
    ∃ r : Except Failure α, a.result.run.fresh = .ok r ∧ r.toOption = a.run.fresh.toOption := by
  rw [show a.result.run.fresh = _ from fresh_bind a.run _]
  rcases h : a.run.fresh with (f | _ | _) | x
  · exact ⟨.error f, rfl, rfl⟩
  · exact (ha _ h).elim
  · exact (ha _ h).elim
  · exact ⟨.ok x, rfl, rfl⟩

/-- A failure of a part is a failure of the whole. -/
theorem StopsIn.nestIn (hP : Halt.FailsOrdinary P) {a : Attempt α} (ha : StopsIn P a)
    (text root : String) : StopsIn P (ExceptT.adapt (nestIn text root) a) := by
  intro e he
  change (Except.mapError (TypedSheets.nestIn text root) <$> a.run).fresh = .error e at he
  rw [fresh_map] at he
  cases h : a.run.fresh with
  | ok x =>
    rw [h] at he
    cases he
  | error e' =>
    rw [h] at he
    cases he
    unfold TypedSheets.nestIn
    split
    · exact hP _ (Failure.ordinary_typeCast _ _ _)
    · exact ha _ h

end Attempt

open Attempt

variable {P : Halt → Prop}

/-! ### Expressions over enum members -/

theorem Token.stopsIn_evaluate (hP : Halt.FailsOrdinary P) {resolve : String → Attempt Int64}
    (h : ∀ name, StopsIn P (resolve name)) (tokens : List Token) :
    StopsIn P (evaluate tokens resolve) := by
  have hoperand (text : String) : StopsIn P (operandValue resolve text) := by
    unfold operandValue
    split
    · exact stopsIn_pure _
    · exact h text
  have hreduce (stack : List Int64) (ps : List Postfix) : StopsIn P (reduce resolve stack ps) := by
    induction ps generalizing stack with
    | nil => exact stopsIn_pure stack
    | cons p ps ih =>
      cases p with
      | operand v => exact (hoperand v).bind fun n _ => ih _
      | invert => exact stopsIn_fail hP (Failure.ordinary_parse _)
      | op o =>
        match stack with
        | right :: left :: stack => exact ih _
        | [_] | [] => exact stopsIn_fail hP (Failure.ordinary_parse _)
  unfold evaluate
  split
  · split <;> exact stopsIn_pure _
  · exact stopsIn_fail hP (Failure.ordinary_parse _)
  · refine (hreduce [] _).bind fun stack _ => ?_
    match stack with
    | [_] => exact stopsIn_pure _
    | [] | _ :: _ :: _ => exact stopsIn_fail hP (Failure.ordinary_parse _)

namespace EnumTables

variable {ts : EnumTables} {enumName : String}

theorem ordinary_cycle (enumName : String) (path : List String) : (cycle enumName path).Ordinary :=
  Failure.ordinary_reference (by simp [toString, String.toList_append])

/-- The value of a member stops with failures only: a member that leads back to itself is found
out. -/
theorem stopsIn_memberValueFrom (hP : Halt.FailsOrdinary P) (path : List String) (member : String) :
    StopsIn P (ts.memberValueFrom enumName path member) := by
  induction hn : Walk.remaining (ts.memberNames enumName) path using Nat.strongRecOn
    generalizing path member with
  | ind n ih =>
    rw [memberValueFrom_eq]
    refine StopsIn.remember ?_
    split
    · exact stopsIn_fail hP (ordinary_cycle _ _)
    · rename_i hmem
      unfold memberBody
      split
      · exact stopsIn_fail hP (Failure.ordinary_undefinedEnum _)
      · rename_i table ht
        split
        · exact stopsIn_fail hP (Failure.ordinary_undefinedMember _ _)
        · rename_i definition hdefinition
          have hname : member ∈ ts.memberNames enumName := by
            simpa [memberNames, ht, EnumTable.names] using Keyed.mem_keys_of_find? hdefinition
          have hless := Walk.remaining_lt hname (fun hpath => hmem ⟨hname, hpath⟩)
            (fun _ hx => List.mem_append_left [member] hx)
            (List.mem_append_right path (List.mem_singleton.2 rfl))
          have hsub (x : String) : StopsIn P (ts.memberValueFrom enumName (path ++ [member]) x) :=
            ih _ (hn ▸ hless) _ _ rfl
          refine (stopsIn_ofExcept hP (Token.ordinary_of_parse _)).bind fun tokens _ => ?_
          refine (Token.stopsIn_evaluate hP hsub tokens).bind fun v _ => ?_
          cases v with
          | integer n => exact stopsIn_pure n
          | symbol name => exact hsub name

theorem stopsIn_memberValue (hP : Halt.FailsOrdinary P) (member : String) :
    StopsIn P (ts.memberValue enumName member) :=
  stopsIn_memberValueFrom hP [] member

/-- Expressions over enum members stop with failures only. -/
theorem stopsIn_evaluate (hP : Halt.FailsOrdinary P) (text : String) :
    StopsIn P (ts.evaluate enumName text) := by
  unfold evaluate
  split
  · exact stopsIn_fail hP (Failure.ordinary_undefinedEnum _)
  · refine (stopsIn_ofExcept hP (Token.ordinary_of_parse _)).bind fun tokens _ => ?_
    split
    · exact stopsIn_fail hP (Failure.ordinary_undefinedMember _ _)
    · exact Token.stopsIn_evaluate hP (stopsIn_memberValue hP) tokens

end EnumTables

namespace Definitions

variable {d : Definitions} {root type : String} {cell : Cell}
  {sub : String → Cell → Attempt Value}

/-! ### Leaves -/

/-- A cell has a text if it is a text. -/
theorem eq_text_of_textOf {detail s : String} (h : (textOf root detail cell).run.fresh = .ok s) :
    cell = .text s := by
  cases cell with
  | text s' =>
    cases h
    rfl
  | _ => cases h

theorem eq_some_of_orFault {α : Type} {value detail : String} {o : Option α} {a : α}
    (h : (orFault value root detail o).run.fresh = .ok a) : o = some a := by
  cases o with
  | some a' =>
    cases h
    rfl
  | none => cases h

theorem eq_ok_of_ofExcept {α : Type} {r : Except Failure α} {a : α}
    (h : (ofExcept r).run.fresh = .ok a) : r = .ok a := by
  cases r with
  | ok a' =>
    cases h
    rfl
  | error f => cases h

section Leaves

variable (hP : Halt.FailsOrdinary P)

include hP

theorem stopsIn_textOf (detail : String) : StopsIn P (textOf root detail cell) := by
  unfold textOf
  split
  · exact stopsIn_pure _
  · exact stopsIn_fault hP _ _ _

theorem stopsIn_orFault {α : Type} (value detail : String) (o : Option α) :
    StopsIn P (orFault value root detail o) := by
  cases o with
  | some a => exact stopsIn_pure a
  | none => exact stopsIn_fault hP _ _ _

theorem stopsIn_castInteger (bounds : IntegerBounds) :
    StopsIn P (castInteger root bounds cell) := by
  refine (stopsIn_textOf hP _).bind fun text _ => ?_
  cases bounds with
  | signed least greatest =>
    refine (stopsIn_orFault hP _ _ _).bind fun n _ => ?_
    split
    · exact stopsIn_fault hP _ _ _
    · exact stopsIn_pure _
  | unsigned greatest =>
    dsimp only
    split
    · split
      · exact stopsIn_fault hP _ _ _
      · exact stopsIn_pure _
    · split <;> exact stopsIn_fault hP _ _ _

theorem stopsIn_castBool : StopsIn P (castBool root cell) := by
  unfold castBool
  split
  · exact stopsIn_pure _
  · dsimp only
    split
    · exact stopsIn_pure _
    · split
      · exact stopsIn_pure _
      · exact stopsIn_fault hP _ _ _
  · exact stopsIn_fault hP _ _ _

theorem stopsIn_castDouble (single : Bool) : StopsIn P (castDouble root single cell) := by
  refine (stopsIn_textOf hP _).bind fun text _ => ?_
  refine (stopsIn_orFault hP _ _ _).bind fun x _ => ?_
  split
  · exact stopsIn_fault hP _ _ _
  · split
    · exact stopsIn_fault hP _ _ _
    · exact stopsIn_pure _

theorem stopsIn_castDateTime : StopsIn P (castDateTime root cell) := by
  unfold castDateTime
  split
  · exact stopsIn_pure _
  · exact (stopsIn_orFault hP _ _ _).map
  · exact stopsIn_fault hP _ _ _

theorem stopsIn_castEnum (name : String) : StopsIn P (d.castEnum root name cell) := by
  unfold castEnum
  split
  · exact (stopsIn_textOf hP _).bind fun text _ => (EnumTables.stopsIn_evaluate hP text).map
  · refine stopsIn_fail hP (Failure.ordinary_reference ?_)
    simp [toString, String.toList_append]

theorem stopsIn_readSpan (text detail : String)
    (h : (∃ e, Duration.read text.toList = .error e) → P .overflow) :
    StopsIn P (readSpan text root detail) := by
  unfold readSpan
  split
  · exact stopsIn_orFault hP _ _ _
  · rename_i e he
    exact stopsIn_throw (h ⟨e, he⟩)

end Leaves

/-! ### Compound values -/

/-- A cell whose text is read as a span, by itself or as the end of a range of dates, while the
parts of the span add up to more than a span can be. -/
def SpanOverflow (d : Definitions) (type : String) (cell : Cell) : Prop :=
  ∃ f p s, d.StoredAs type (.primitive f p) ∧ (p = .timeSpan ∨ p = .dateRange) ∧
    cell.normalize = .text s ∧ ∃ e, Duration.read s.toList = .error e

section Parts

variable (hP : Halt.FailsOrdinary P) (hn : cell.normalize = cell)
  (hspan : d.SpanOverflow type cell → P .overflow)
  (hsub : ∀ y, d.Part (type, cell) y → StopsIn P (sub y.1 y.2))

theorem stopsIn_castArguments (hP : Halt.FailsOrdinary P) (whole : String) {params : List Parameter}
    {args : List String}
    (hsub : ∀ b ∈ boundTexts params args, StopsIn P (sub b.1.type (.text b.2))) :
    StopsIn P (castArguments sub root whole params args) := by
  induction params generalizing args with
  | nil => exact stopsIn_pure []
  | cons p params ih =>
    cases args with
    | nil =>
      rw [boundTexts, List.forall_mem_append] at hsub
      refine (stopsIn_orFault hP _ _ _).bind fun arg harg => ?_
      have hdefault : p.default = some arg := by
        cases hd : p.default with
        | some a =>
          rw [hd] at harg
          cases harg
          rfl
        | none =>
          rw [hd] at harg
          cases harg
      refine (hsub.1 (p, arg) (by simp [hdefault])).bind fun v _ => ?_
      exact (ih hsub.2).bind fun vs _ => stopsIn_pure _
    | cons arg args =>
      rw [boundTexts, List.forall_mem_cons] at hsub
      exact hsub.1.bind fun v _ => (ih hsub.2).bind fun vs _ => stopsIn_pure _

include hP

theorem stopsIn_castTimeSpan {f : Flags} (hn : cell.normalize = cell)
    (h : d.StoredAs type (.primitive f .timeSpan))
    (hspan : d.SpanOverflow type cell → P .overflow) : StopsIn P (castTimeSpan root cell) := by
  unfold castTimeSpan
  split
  · exact stopsIn_pure _
  · rename_i s
    exact (stopsIn_readSpan hP _ _ fun he => hspan ⟨f, _, s, h, .inl rfl, hn, he⟩).map
  · exact stopsIn_fault hP _ _ _

include hn hsub

theorem stopsIn_castArray {f : Flags} {e : TypeExpr} (h : d.StoredAs type (.array f e)) :
    StopsIn P (castArray sub root e cell) := by
  unfold castArray
  split
  · exact stopsIn_pure _
  · rename_i hnull
    refine StopsIn.map (StopsIn.nestIn hP (stopsIn_mapM fun item hitem => ?_) _ _)
    exact hsub _ (.item h (by simpa using hnull) (by rwa [hn]))

theorem stopsIn_castMap {f : Flags} {k v : TypeExpr} (h : d.StoredAs type (.map f k v)) :
    StopsIn P (castMap sub root k v cell) := by
  unfold castMap
  split
  · exact stopsIn_pure _
  · rename_i hnull
    have hnull : cell.isNull = false := by simpa using hnull
    refine StopsIn.map (stopsIn_mapM fun entry hentry => ?_)
    rw [← hn] at hentry
    unfold castEntry
    cases hc : Text.cutAt ':' entry with
    | none => exact (stopsIn_fault hP _ _ _).bind fun _ h => nomatch h
    | some ends =>
      have hkey : StopsIn P (sub k.text (partCell ends.1)) := hsub _ (.key h hnull hentry hc)
      have hvalue : StopsIn P (sub v.text (partCell ends.2)) := hsub _ (.value h hnull hentry hc)
      exact hkey.bind fun a _ => hvalue.bind fun b _ => stopsIn_pure _

theorem stopsIn_castGeometry {f : Flags} {shape : Geometry} {e : TypeExpr}
    (h : d.StoredAs type (.geometry f shape e)) :
    StopsIn P (castGeometry sub root shape e cell) := by
  refine (stopsIn_textOf hP _).bind fun s hs => ?_
  cases eq_text_of_textOf hs
  refine (stopsIn_orFault hP _ _ _).bind fun ends hends => ?_
  have hc := eq_some_of_orFault hends
  have hfirst : StopsIn P (sub e.text (partCell ends.1)) := hsub _ (.first h hn hc)
  have hsecond : StopsIn P (sub e.text (partCell ends.2)) := hsub _ (.second h hn hc)
  exact hfirst.bind fun a _ => hsecond.bind fun b _ => stopsIn_pure _

theorem stopsIn_castCall {f : Flags} (h : d.StoredAs type (.primitive f .call)) :
    StopsIn P (d.castCall sub root cell) := by
  refine (stopsIn_textOf hP _).bind fun s hs => ?_
  cases eq_text_of_textOf hs
  refine (stopsIn_ofExcept hP (Call.ordinary_of_parse s)).bind fun call hcall => ?_
  have hcall := eq_ok_of_ofExcept hcall
  dsimp only
  split
  · refine stopsIn_fail hP (Failure.ordinary_reference ?_)
    simp [String.toList_append]
  · rename_i p hp
    split
    · exact stopsIn_fault hP _ _ _
    · split
      · exact stopsIn_fault hP _ _ _
      · exact (stopsIn_castArguments hP s fun b hb =>
          hsub (b.1.type, .text b.2) (.argument h hn hcall hp hb)).map

include hspan

theorem stopsIn_castDateRange {f : Flags} (h : d.StoredAs type (.primitive f .dateRange)) :
    StopsIn P (castDateRange sub root cell) := by
  refine (stopsIn_textOf hP _).bind fun s hs => ?_
  cases eq_text_of_textOf hs
  split
  · rename_i a b hc
    have hstart : StopsIn P (sub "DateTime" (partCell a)) := hsub _ (.start h hn hc)
    have hfinish : StopsIn P (sub "DateTime" (partCell b)) := hsub _ (.finish h hn hc)
    refine hstart.bind fun start _ => hfinish.bind fun finish _ => ?_
    split
    · exact stopsIn_pure _
    · exact stopsIn_fault hP _ _ _
  · refine (stopsIn_readSpan hP _ _ fun he =>
      hspan ⟨f, _, s, h, .inr rfl, hn, he⟩).bind fun span _ => ?_
    exact (stopsIn_orFault hP _ _ _).bind fun finish _ => stopsIn_pure _

theorem stopsIn_castFilled {expr : TypeExpr} (h : d.StoredAs type expr) :
    StopsIn P (d.castFilled sub root expr cell) := by
  unfold castFilled
  split
  · exact stopsIn_castBool hP
  · exact stopsIn_castDouble hP true
  · exact stopsIn_castDouble hP false
  · exact stopsIn_castDateTime hP
  · exact stopsIn_castTimeSpan hP hn h hspan
  · exact stopsIn_castDateRange hP hn hspan hsub h
  · exact stopsIn_castCall hP hn hsub h
  · split
    · exact stopsIn_castInteger hP _
    · exact stopsIn_fault hP _ _ _
  · exact stopsIn_castGeometry hP hn hsub h
  · exact stopsIn_castEnum hP _
  · exact stopsIn_fault hP _ _ _

theorem stopsIn_castRoot {expr : TypeExpr} (h : d.StoredAs type expr) :
    StopsIn P (d.castRoot sub root expr cell) := by
  unfold castRoot
  split
  · exact stopsIn_castArray hP hn hsub h
  · exact stopsIn_castMap hP hn hsub h
  · exact stopsIn_pure _
  · split
    · split
      · exact stopsIn_pure _
      · exact stopsIn_fail hP (Failure.ordinary_nullValue root)
    · exact stopsIn_castFilled hP hn hspan hsub h

end Parts

/-! ### Whole casts -/

theorem stopsIn_rootType (hP : Halt.FailsOrdinary P) (type : String) :
    StopsIn P (d.schemas.rootType type) :=
  (stopsIn_ofExcept hP (d.schemas.ordinary_of_rootFrom [] type)).remember

theorem stopsIn_settle (hP : Halt.FailsOrdinary P) (type : String) (cell : Cell) :
    StopsIn P (d.settle type cell) := by
  unfold settle
  split
  · refine StopsIn.bind ?_ fun b _ => ?_
    · refine (stopsIn_rootType hP type).bind fun root _ => ?_
      refine (stopsIn_ofExcept hP (TypeExpr.ordinary_of_parse root)).bind fun expr _ => ?_
      split <;> exact stopsIn_pure _
    · split <;> exact stopsIn_pure _
  · exact stopsIn_pure _

/-- How the cast of a settled cell that refers to no constant can stop. -/
theorem stopsIn_castPlain (hP : Halt.FailsOrdinary P) (hs : d.Settled type cell)
    (hspan : d.SpanOverflow type cell → P .overflow)
    (hsub : ∀ y, d.Part (type, cell) y → StopsIn P (sub y.1 y.2)) :
    StopsIn P (d.castPlain sub type cell) := by
  refine (stopsIn_rootType hP type).bind fun root hroot => ?_
  refine (stopsIn_ofExcept hP (TypeExpr.ordinary_of_parse root)).bind fun expr hexpr => ?_
  have hroot : d.schemas.rootFrom [] type = .ok root := by
    rw [Schemas.rootType, fresh_remember] at hroot
    exact eq_ok_of_ofExcept hroot
  have hstored : d.StoredAs type expr := ⟨root, hroot, eq_ok_of_ofExcept hexpr⟩
  rcases hs with hn | ⟨f, hstring⟩
  · exact stopsIn_castRoot hP hn hspan hsub hstored
  · cases hstored.unique hstring
    exact stopsIn_pure _

/-- **How the cast of a cell can stop** that refers to no constant: as its parts do, with a failure,
or because the text of the cell is read as a span beyond the bounds of spans. -/
theorem errorsIn_plainValue (hP : Halt.FailsOrdinary P) {x : Slot} {o : Slot → Except Halt Value}
    (hspan : d.SpanOverflow x.1 x.2 → P .overflow)
    (ho : ∀ y, d.Part x y → (o y).ErrorsIn P) : (d.plainValue x o).ErrorsIn P := by
  cases hcell : (d.settle x.1 x.2).run.fresh with
  | error e =>
    rw [plainValue_of_error hcell]
    exact .error (stopsIn_settle hP x.1 x.2 e hcell)
  | ok cell =>
    obtain ⟨hnormal, hs⟩ := (settle_yields (R := fun _ _ _ => True)).fresh cell hcell
    rw [plainValue_of_ok hcell]
    refine stopsIn_castPlain hP hs (fun h => hspan ?_) fun y hy => ?_
    · obtain ⟨f, p, s, hstored, hp, htext, he⟩ := h
      exact ⟨f, p, s, hstored, hp, hnormal ▸ htext, he⟩
    · exact ho y (hy.congr hnormal)

/-! ### The way inward -/

/-- What a cast comes to next: a part of the cell, or the constant that the cell refers to. -/
inductive Enters (d : Definitions) (x : Slot) : Slot → Prop
  /-- A part of a cell that refers to no constant. -/
  | part {y : Slot} (plain : x.2.constRef? = none) (h : d.Part x y) : Enters d x y
  /-- A constant. -/
  | const {link : String × String} {constant : Constant} (refers : x.2.constRef? = some link)
    (h : d.consts.find? link = some constant) : Enters d x (constant.type, constant.value)

/-- Cells that a cast comes to, sooner or later. -/
abbrev Meets (d : Definitions) : Slot → Slot → Prop :=
  Relation.ReflTransGen d.Enters

theorem ordinary_undefinedConstant (table name : String) :
    (d.undefinedConstant table name).Ordinary := by
  unfold undefinedConstant
  split
  · exact Failure.ordinary_reference (by simp [toString, String.toList_append])
  · exact Failure.ordinary_reference (by simp [toString, String.toList_append])

/-- How the cast of a cell can stop: it goes too deep, or it fails, or it comes to a text that is
read as a span beyond the bounds of spans. -/
theorem errorsIn_values {I : Condition} (hI : d.RemembersNames I) (hP : Halt.FailsOrdinary P)
    (hcycle : ∀ followed, P (.failure (constantCycle followed))) (hend : P .endless)
    (trail : Trail) (n : Nat) {x : Slot}
    (hspan : ∀ y, d.Meets x y → d.SpanOverflow y.1 y.2 → P .overflow) :
    (d.values trail n x).ErrorsIn P := by
  induction n generalizing trail x with
  | zero => exact .error hend
  | succ n ih =>
    have hinside {y : Slot} (hy : d.Enters x y) (trail : Trail) : (d.values trail n y).ErrorsIn P :=
      ih trail fun z hz => hspan z (hz.head hy)
    cases hlink : x.2.constRef? with
    | none =>
      rw [values_of_plain hI hlink]
      exact errorsIn_plainValue hP (hspan x .refl) fun y hy => hinside (.part hlink hy) trail
    | some link =>
      cases hconst : d.consts.find? link with
      | none =>
        rw [values_of_undefined hlink hconst]
        exact .error (hP _ (ordinary_undefinedConstant _ _))
      | some constant =>
        by_cases hmem : link ∈ trail
        · rw [values_of_cycle hlink hconst hmem]
          exact .error (hcycle _)
        · rw [values_of_link hlink hconst hmem]
          exact hinside (.const hlink hconst) _

end Definitions

end TypedSheets
