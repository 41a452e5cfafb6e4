import TypedSheets.Proofs.Casting.Texts
import TypedSheets.Proofs.Text.Words

/-!
# Members by name and by number

A cell of an enum type holds a member by its name or by its number. Only the name is looked up; both
stay what they are, so that one member has two values.

## Main definitions

* `Definitions.enumRoot?` — the enum that an annotation has at its root.
* `Definitions.member?` — the member that a cell holds by its name.

## Main results

* `Token.parse_digits` — digits are one token.
* `Definitions.fresh_cast_text` — a text without blanks is cast as it is.
* `Definitions.cast_number` — every number that is not negative can be written in a cell.
-/

namespace TypedSheets

open Recall

/-! ### Numerals -/

namespace Token

variable {text : List Char}

theorem operandLength_digits (hall : ∀ c ∈ text, c.isDigit = true) :
    operandLength text = text.length := by
  cases text with
  | nil => rfl
  | cons c rest =>
    have hdecimal : ∀ d ∈ c :: rest, Text.isDecimalDigit d = true := fun d hd => by
      rw [Text.isDecimalDigit, if_pos (Text.toNat_lt_of_isDigit (hall d hd)), hall d hd]
    have hstart := Text.isNameStart_of_isDigit (hall c List.mem_cons_self)
    rw [operandLength, Text.stripHexMark_digits hall, hstart,
      List.takeWhile_eq_self_iff.2 hdecimal]
    rfl

/-- A numeral in decimal digits is read as one token. -/
theorem parse_digits (hne : text ≠ []) (hall : ∀ c ∈ text, c.isDigit = true) :
    parse (String.ofList text) = .ok [.value (String.ofList text)] := by
  obtain ⟨c, rest, rfl⟩ := List.exists_cons_of_ne_nil hne
  have hdigit := hall c List.mem_cons_self
  have hblanks : (c :: rest).filter (!Text.isBlank ·) = c :: rest :=
    List.filter_eq_self.2 fun d hd => by
      rw [Text.isBlank_of_isWordChar (Text.isWordChar_of_isDigit (hall d hd))]
      rfl
  rw [parse, scan, String.toList_ofList, hblanks, scanFrom]
  · rw [operandLength_digits hall, if_pos (by simp), List.take_length, List.drop_length, scanFrom]
    rfl
  all_goals exact Text.ne_of_isDigit hdigit (by decide)

end Token

/-! ### Texts without blanks -/

/-- A text without blanks is a cell that is not empty and refers to no constant, as the first
character of it tells. -/
theorem Cell.settled {c : Char} {rest : List Char}
    (hblank : ∀ d ∈ c :: rest, Text.isBlank d = false) (hn : c ≠ 'n') (hC : c ≠ 'C') :
    (Cell.text (String.ofList (c :: rest))).normalize = .text (String.ofList (c :: rest)) ∧
      (Cell.text (String.ofList (c :: rest))).isNull = false ∧
      (Cell.text (String.ofList (c :: rest))).constRef? = none := by
  have htrim : Text.trim (c :: rest) = c :: rest := Text.trim_of_not_blank hblank
  have hnull : isNullText (c :: rest) = false := by simp [isNullText, htrim, hn]
  refine ⟨?_, ?_, ?_⟩
  · rw [normalize, String.toList_ofList, hnull, Text.trimmed, String.toList_ofList, htrim]
    rfl
  · rw [isNull, String.toList_ofList, hnull]
  · rw [constRef?, String.toList_ofList, htrim, constNames?, Text.stripPrefix, if_neg hC.symm]
    rfl

/-- A text of digits is a cell that is not empty and refers to no constant. -/
theorem Cell.digits {text : List Char} (hne : text ≠ []) (hall : ∀ c ∈ text, c.isDigit = true) :
    (Cell.text (String.ofList text)).normalize = .text (String.ofList text) ∧
      (Cell.text (String.ofList text)).isNull = false ∧
      (Cell.text (String.ofList text)).constRef? = none := by
  obtain ⟨c, rest, rfl⟩ := List.exists_cons_of_ne_nil hne
  have hdigit := hall c List.mem_cons_self
  have hblank : ∀ d ∈ c :: rest, Text.isBlank d = false := fun d hd =>
    Text.isBlank_of_isWordChar (Text.isWordChar_of_isDigit (hall d hd))
  exact Cell.settled hblank (Text.ne_of_isDigit hdigit (by decide))
    (Text.ne_of_isDigit hdigit (by decide))

/-- Such a cell is cast as it is to the type that its annotation is stored as, unless that is a
string. -/
theorem Definitions.fresh_cast_text {d : Definitions} {type root text : String} {expr : TypeExpr}
    (hroot : d.schemas.rootFrom [] type = .ok root) (hparse : TypeExpr.parse root = .ok expr)
    (hexpr : ∀ f, expr ≠ .primitive f .string) (hnormal : (Cell.text text).normalize = .text text)
    (hconst : (Cell.text text).constRef? = none) :
    ∃ depth, (d.cast type (.text text)).run.fresh =
      (d.castRoot (d.castFrom depth []) root expr (.text text)).run.fresh := by
  have hsettle := fresh_settle_text hroot hparse hexpr hnormal
  obtain ⟨depth, hdepth⟩ : ∃ depth, d.depthBound type (.text text) = depth + 1 :=
    Nat.exists_eq_succ_of_ne_zero (Nat.mul_ne_zero (Nat.succ_ne_zero _) (Nat.succ_ne_zero _))
  refine ⟨depth, ?_⟩
  have hcast : (d.cast type (.text text)).run.fresh =
      (d.castPlain (d.castFrom depth []) type (.text text)).run.fresh := by
    rw [cast, hdepth, castFrom, hconst]
    dsimp only
    rw [fresh_bind_run, hsettle]
    exact fresh_remember (.cast type (.text text)) _
  rw [hcast, fresh_castPlain hroot hparse]

/-! ### Members by name and by number -/

/-- A numeral comes to its number, whatever symbols come to. -/
theorem Token.evaluate_literal {m : Type → Type} [Monad m]
    {resolve : String → ExceptT Halt m Int64} {text : String} {n : Int64}
    (h : literal? text.toList = some n) : evaluate [.value text] resolve = pure (.integer n) := by
  have hflatten : flatten [.value text] = [.value text] := by simp [flatten, flattenOne]
  rw [evaluate, hflatten]
  dsimp only
  rw [h]

/-- A numeral has its number as the value of an expression. -/
theorem EnumTables.fresh_evaluate_literal {ts : EnumTables} {name text : String} {n : Int64}
    (hname : ts.contains name = true) (hparse : Token.parse text = .ok [.value text])
    (hliteral : literal? text.toList = some n) :
    (ts.evaluate name text).run.fresh = .ok (.integer n) := by
  obtain ⟨table, htable⟩ := Option.isSome_iff_exists.1 hname
  have hsymbols : Token.symbols [.value text] = [] := by
    simp [Token.symbols, Token.symbolsOf, isLiteral, hliteral]
  have hparsed : (Attempt.ofExcept (Token.parse text)).run.fresh = .ok [.value text] := by
    rw [hparse]
    rfl
  unfold EnumTables.evaluate
  rw [htable]
  dsimp only
  rw [fresh_bind_run, hparsed]
  show Recall.fresh (ExceptT.run _) = _
  rw [hsymbols, List.find?_nil, Token.evaluate_literal hliteral]
  rfl

namespace Definitions

variable (d : Definitions)

/-- The enum that an annotation has at its root. -/
def enumRoot? (type : String) : Option String :=
  match d.schemas.rootFrom [] type with
  | .ok root =>
    match TypeExpr.parse root with
    | .ok (.enum _ name) => some name
    | _ => none
  | .error _ => none

/-- The single member that a cell holds. -/
def member? (type : String) (cell : Cell) : Option String :=
  match (d.cast type cell).run.fresh with
  | .ok (.enum (.symbol name)) => some name
  | _ => none

variable {d} {type name : String} {cell : Cell}

theorem enumRoot?_eq_some_iff :
    d.enumRoot? type = some name ↔ ∃ f, d.StoredAs type (.enum f name) := by
  unfold enumRoot? StoredAs
  constructor
  · intro h
    split at h
    · rename_i root hroot
      split at h
      · rename_i f _ hparse
        cases h
        exact ⟨f, root, hroot, hparse⟩
      · cases h
    · cases h
  · rintro ⟨f, root, hroot, hparse⟩
    rw [hroot]
    dsimp only
    rw [hparse]

theorem member?_eq_some_iff {m : String} :
    d.member? type cell = some m ↔ (d.cast type cell).run.fresh = .ok (.enum (.symbol m)) := by
  unfold member?
  constructor
  · intro h
    split at h
    · rename_i hcast
      cases h
      exact hcast
    · cases h
  · intro h
    rw [h]

/-- A cell that is not empty, has no blanks around it and refers to no constant is cast as the
expression it is. -/
theorem fresh_cast_enum {text : String} (hroot : d.enumRoot? type = some name)
    (hname : d.enums.contains name = true) (hnormal : (Cell.text text).normalize = .text text)
    (hnull : (Cell.text text).isNull = false) (hconst : (Cell.text text).constRef? = none) :
    (d.cast type (.text text)).run.fresh = .enum <$> (d.enums.evaluate name text).run.fresh := by
  obtain ⟨f, root, hroot, hparse⟩ := enumRoot?_eq_some_iff.1 hroot
  obtain ⟨depth, hcast⟩ := fresh_cast_text hroot hparse (fun _ h => nomatch h) hnormal hconst
  have hfilled : d.castRoot (d.castFrom depth []) root (.enum f name) (.text text) =
      d.castEnum root name (.text text) := by
    show (if (Cell.text text).isNull then _ else _) = _
    rw [hnull]
    rfl
  rw [hcast, hfilled, castEnum, if_pos hname]
  exact fresh_map_run _ _

/-- **A number that is not negative can be written for a member**: under an enum type it is cast to
the number. -/
theorem cast_number (hroot : d.enumRoot? type = some name) (hname : d.enums.contains name = true)
    {n : Int64} (hn : 0 ≤ n.toInt) :
    (d.cast type (.text (Text.intText n.toInt))).run.fresh = .ok (.enum (.integer n)) := by
  obtain ⟨k, hk⟩ := Int.eq_ofNat_of_zero_le hn
  have hliteral : literal? (String.ofList (Text.decimal k)).toList = some n := by
    have hliteral := literal?_signedDecimal hn
    rwa [hk, ← String.toList_ofList (l := Text.signedDecimal k)] at hliteral
  have hne : Text.decimal k ≠ [] := Text.decimal_ne_nil k
  have hall : ∀ c ∈ Text.decimal k, c.isDigit = true := fun _ => Text.isDigit_of_mem_decimal
  obtain ⟨hnormal, hnull, hconst⟩ := Cell.digits hne hall
  rw [hk]
  show (d.cast type (.text (String.ofList (Text.decimal k)))).run.fresh = _
  rw [fresh_cast_enum hroot hname hnormal hnull hconst,
    EnumTables.fresh_evaluate_literal hname (Token.parse_digits hne hall) hliteral]
  rfl

end Definitions

end TypedSheets
