import TypedSheets.Proofs.Casting.Inhabits
import TypedSheets.Proofs.Recall.Attempt

/-!
# Casts of leaves

What the casts without parts yield: a value of the annotation whenever they come to one. They
neither ask nor note anything but the values of enum members, so that they hold under every
condition that members do not matter to.

## Main definitions

* `EnumTables.Symbolic` — a symbol that a cell of an enum type can come to.

## Main results

* `Definitions.castInteger_yields`, `Definitions.castBool_yields`, `Definitions.castDouble_yields`,
  `Definitions.castDateTime_yields`, `Definitions.castTimeSpan_yields`,
  `Definitions.castEnum_yields` — the values of the leaves.
* `EnumTables.evaluate_yields` — a symbol that an expression comes to is a member and no numeral.
-/

namespace TypedSheets

open Recall

variable {I : Condition}

namespace Definitions

theorem textOf_yields {root detail : String} {cell : Cell} :
    Yields I (textOf root detail cell) fun s => cell = .text s := by
  unfold textOf
  cases cell with
  | text s => exact yields_pure rfl
  | _ => exact yields_throw

theorem orFault_yields {α : Type} {value root detail : String} {o : Option α} :
    Yields I (orFault value root detail o) fun a => o = some a := by
  cases o with
  | none => exact yields_throw
  | some a => exact yields_pure rfl

variable {root : String} {cell : Cell}

/-- An integer that is cast lies within the bounds of its type. -/
theorem castInteger_yields {bounds : IntegerBounds} :
    Yields I (castInteger root bounds cell) bounds.Admits := by
  unfold castInteger
  refine textOf_yields.bind fun text _ => ?_
  cases bounds with
  | signed least greatest =>
    refine orFault_yields.bind fun n _ => ?_
    split
    · exact yields_throw
    · rename_i hn
      simp only [Bool.or_eq_true, decide_eq_true_eq, not_or, Int.not_lt] at hn
      exact yields_pure ⟨n, rfl, hn.1, hn.2⟩
  | unsigned greatest =>
    dsimp only
    split
    · split
      · exact yields_throw
      · rename_i n _ hn
        exact yields_pure ⟨n, rfl, Nat.le_of_not_lt hn⟩
    · split
      · exact yields_throw
      · exact yields_throw

theorem castBool_yields : Yields I (castBool root cell) fun v => ∃ b, v = .bool b := by
  unfold castBool
  split
  · exact yields_pure ⟨_, rfl⟩
  · dsimp only
    split
    · exact yields_pure ⟨_, rfl⟩
    · split
      · exact yields_pure ⟨_, rfl⟩
      · exact yields_throw
  · exact yields_throw

/-- A number that is cast is finite, and fits the smaller format if it has to. -/
theorem castDouble_yields {single : Bool} :
    Yields I (castDouble root single cell) fun v =>
      ∃ x : Double, v = .double x ∧ x.isFinite = true ∧ (single = true → x.fitsSingle = true) := by
  unfold castDouble
  refine textOf_yields.bind fun text _ => ?_
  refine orFault_yields.bind fun x _ => ?_
  split
  · exact yields_throw
  · rename_i hx
    split
    · exact yields_throw
    · rename_i hs
      refine yields_pure ⟨x, rfl, by simpa using hx, ?_⟩
      intro h
      simpa [h] using hs

theorem castDateTime_yields :
    Yields I (castDateTime root cell) fun v => ∃ t, v = .dateTime t := by
  unfold castDateTime
  split
  · exact yields_pure ⟨_, rfl⟩
  · exact (orFault_yields.mono fun t _ => ⟨t, rfl⟩).map
  · exact yields_throw

theorem readSpan_yields {text detail : String} :
    Yields I (readSpan text root detail) fun _ => True := by
  unfold readSpan
  split
  · exact orFault_yields.mono fun _ _ => trivial
  · exact yields_throw

theorem castTimeSpan_yields :
    Yields I (castTimeSpan root cell) fun v => ∃ span, v = .timeSpan span := by
  unfold castTimeSpan
  split
  · exact yields_pure ⟨_, rfl⟩
  · exact (readSpan_yields.mono fun span _ => ⟨span, rfl⟩).map
  · exact yields_throw

end Definitions

/-! ### Enums -/

namespace Token

variable {resolve : String → Attempt Int64}

theorem keeps_reduce (hr : ∀ symbol, Keeps I (resolve symbol).run) (stack : List Int64)
    (ps : List Postfix) : Keeps I (reduce resolve stack ps).run := by
  fun_induction reduce resolve stack ps with
  | case1 stack => exact Keeps.pure _
  | case2 stack v rest ih =>
    have hv : Keeps I (operandValue resolve v).run := by
      unfold operandValue
      split
      · exact Keeps.pure _
      · exact hr v
    exact (hv.yields.bind fun n _ => (ih n).yields).keeps
  | case3 => exact Keeps.pure _
  | case4 right left stack o rest ih => exact ih
  | case5 => exact Keeps.pure _

/-- A symbol that an expression comes to is one of its symbols. -/
theorem evaluate_yields (hr : ∀ symbol, Keeps I (resolve symbol).run) (tokens : List Token) :
    Yields I (evaluate tokens resolve) fun v =>
      ∀ name, v = .symbol name → flatten tokens = [.value name] ∧ literal? name.toList = none := by
  unfold evaluate
  split
  · rename_i v hv
    split
    · refine yields_pure ?_
      intro name h
      cases h
    · rename_i hl
      refine yields_pure ?_
      intro name h
      cases h
      exact ⟨hv, hl⟩
  · exact yields_throw
  · unfold combine
    refine (keeps_reduce hr [] _).yields.bind fun stack _ => ?_
    match stack with
    | [n] =>
      refine yields_pure ?_
      intro name h
      cases h
    | [] => exact yields_throw
    | _ :: _ :: _ => exact yields_throw

/-- No symbol in a token starts with a sign. -/
def Unsigned (t : Token) : Prop :=
  ∀ name ∈ symbolsOf t, name.toList.head? ≠ some '-'

theorem mem_symbols {ts : List Token} {name : String} :
    name ∈ symbols ts ↔ ∃ t ∈ ts, name ∈ symbolsOf t := by
  induction ts with
  | nil => simp [symbols]
  | cons t ts ih => simp [symbols, ih]

/-- An operand does not start with a sign. -/
theorem operandLength_dash (rest : List Char) : operandLength ('-' :: rest) = 0 := by
  have hstart : Text.isNameStart '-' = false := by decide
  have hdigit : Text.isDecimalDigit '-' = false := by decide
  have hhex : Text.stripHexMark ('-' :: rest) = none := rfl
  simp [operandLength, hhex, hstart, hdigit]

/-- If no symbol read so far starts with a sign, none of the tokens of the whole text does. -/
theorem unsigned_of_scanFrom {whole : String} {level : List Token} {outer : List (List Token)}
    {text : List Char} {ts : List Token} (h : scanFrom whole level outer text = .ok ts)
    (hlevel : ∀ t ∈ level, t.Unsigned) (houter : ∀ l ∈ outer, ∀ t ∈ l, t.Unsigned) :
    ∀ t ∈ ts, t.Unsigned := by
  have hcons {t : Token} {l : List Token} (ht : t.Unsigned) (hl : ∀ t ∈ l, t.Unsigned) :
      ∀ u ∈ t :: l, u.Unsigned :=
    List.forall_mem_cons.2 ⟨ht, hl⟩
  have hnone {t : Token} (ht : symbolsOf t = []) : t.Unsigned := by
    intro name hname
    rw [ht] at hname
    cases hname
  fun_induction scanFrom whole level outer text with
  | case1 level outer hempty =>
    cases h
    exact fun t ht => hlevel t (List.mem_reverse.1 ht)
  | case2 => cases h
  | case3 level outer rest ih =>
    exact ih h (fun _ ht => nomatch ht) (List.forall_mem_cons.2 ⟨hlevel, houter⟩)
  | case4 => cases h
  | case5 level rest outerLevel outer ih =>
    rw [List.unattach_reverse, List.unattach_attach] at ih
    obtain ⟨hfirst, hrest⟩ := List.forall_mem_cons.1 houter
    refine ih h (hcons (fun name hname => ?_) hfirst) hrest
    rw [symbolsOf] at hname
    obtain ⟨t, ht, hname⟩ := mem_symbols.1 hname
    exact hlevel t (List.mem_reverse.1 ht) name hname
  | case6 level outer rest ih => exact ih h (hcons (hnone (by simp [symbolsOf])) hlevel) houter
  | case7 level outer rest ih => exact ih h (hcons (hnone (by simp [symbolsOf])) hlevel) houter
  | case8 level outer rest ih => exact ih h (hcons (hnone (by simp [symbolsOf])) hlevel) houter
  | case9 level outer c rest _ _ _ _ _ n hn ih =>
    refine ih h (hcons (fun name hname => ?_) hlevel) houter
    have hname : name = String.ofList ((c :: rest).take n) := by
      unfold symbolsOf at hname
      split at hname
      · cases hname
      · exact List.mem_singleton.1 hname
    rw [hname, String.toList_ofList, List.head?_take, if_neg (Nat.ne_of_gt hn), List.head?_cons]
    intro hc
    cases hc
    exact absurd hn (by simp [n, operandLength_dash])
  | case10 => cases h

/-- The symbols of an expression that is read do not start with a sign. -/
theorem unsigned_of_parse {text : String} {ts : List Token} (h : parse text = .ok ts) {t : Token}
    (ht : t ∈ ts) : t.Unsigned := by
  unfold parse at h
  cases hscan : scan text with
  | error e =>
    rw [hscan] at h
    cases h
  | ok us =>
    rw [hscan] at h
    cases h
    exact unsigned_of_scanFrom hscan (fun _ h => nomatch h) (fun _ h => nomatch h) t ht

theorem symbols_append (ts us : List Token) : symbols (ts ++ us) = symbols ts ++ symbols us := by
  induction ts with
  | nil => rfl
  | cons t ts ih => rw [List.cons_append, symbols, symbols, ih, List.append_assoc]

mutual

theorem symbols_flattenOne : (t : Token) → symbols (flattenOne t) = symbolsOf t
  | group inner => by rw [flattenOne, symbolsOf, symbols_flatten inner]
  | value _ | invert | op _ => by simp [flattenOne, symbols]

/-- Groups make no difference to the symbols. -/
theorem symbols_flatten : (ts : List Token) → symbols (flatten ts) = symbols ts
  | [] => rfl
  | t :: ts => by rw [flatten, symbols_append, symbols_flattenOne t, symbols_flatten ts, symbols]

end

end Token

namespace EnumTables

variable {ts : EnumTables} {enumName : String}

/-- The value of a member notes nothing but values of members. -/
theorem keeps_memberValueFrom (hI : ∀ member n, I (.member enumName member) n)
    (path : List String) (member : String) :
    Keeps I (ts.memberValueFrom enumName path member).run := by
  fun_induction memberValueFrom ts enumName path member with
  | case1 path member ih =>
    refine (yields_remember (Yields.mono (P := fun _ => True) ?_ fun n _ => hI member n)).keeps
    split
    · exact yields_fail
    · rename_i table ht
      split
      · exact yields_fail
      · rename_i definition hm
        split
        · exact yields_fail
        · rename_i hnew
          have hk := ih table ht definition hm hnew
          refine Yields.bind (yields_ofExcept fun _ _ => trivial) fun tokens _ => ?_
          refine (Token.evaluate_yields hk tokens).bind fun v _ => ?_
          split
          · exact yields_pure trivial
          · exact (hk _).yields

/-- A symbol that a cell of an enum type can come to: a member that is no numeral. -/
structure Symbolic (t : EnumTable) (name : String) : Prop where
  /-- The symbol is a member. -/
  member : t.contains name = true
  /-- It is no numeral. -/
  word : literal? name.toList = none
  /-- It has no sign. -/
  unsigned : name.toList.head? ≠ some '-'

/-- A cell of an enum type comes to a number or to a member. -/
theorem evaluate_yields (hI : ∀ member n, I (.member enumName member) n) (text : String) :
    Yields I (ts.evaluate enumName text) fun v =>
      ∃ t, ts.find? enumName = some t ∧ ∀ name, v = .symbol name → Symbolic t name := by
  unfold evaluate
  split
  · exact yields_fail
  · rename_i t ht
    refine Yields.bind (yields_ofExcept fun _ h => h) fun tokens hparse => ?_
    split
    · exact yields_fail
    · rename_i hall
      refine (Token.evaluate_yields (fun s => keeps_memberValueFrom hI [] s) tokens).mono ?_
      intro v hv
      refine ⟨t, ht, ?_⟩
      intro name hname
      obtain ⟨hflat, hlit⟩ := hv name hname
      have hmem : name ∈ Token.symbols tokens := by
        rw [← Token.symbols_flatten, hflat]
        simp [Token.symbols, Token.symbolsOf, isLiteral, hlit]
      obtain ⟨token, htoken, hsymbol⟩ := Token.mem_symbols.1 hmem
      exact {
        member := by simpa using List.find?_eq_none.1 hall name hmem
        word := hlit
        unsigned := Token.unsigned_of_parse hparse htoken name hsymbol }

end EnumTables

/-- A cell of an enum type comes to a number or to a member. -/
theorem Definitions.castEnum_yields {d : Definitions} {root name : String} {cell : Cell}
    (hI : ∀ member n, I (.member name member) n) : Yields I (d.castEnum root name cell) fun v =>
      ∃ e t, v = .enum e ∧ d.enums.find? name = some t ∧
        ∀ member, e = .symbol member → EnumTables.Symbolic t member := by
  unfold castEnum
  split
  · refine textOf_yields.bind fun text _ => ?_
    refine ((EnumTables.evaluate_yields hI text).mono ?_).map
    rintro e ⟨t, ht, he⟩
    exact ⟨e, t, rfl, ht, he⟩
  · exact yields_fail

end TypedSheets
