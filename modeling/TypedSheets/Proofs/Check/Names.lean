import TypedSheets.Check.Name
import TypedSheets.Enum.Expression
import TypedSheets.Proofs.Call.Arguments
import TypedSheets.Proofs.TypeExpr.RoundTrip

/-!
# References to names

A name that the check of names accepts is referred to in four ways: as a member of an enum, as a
constant of a table, as a function, and as a column of a table that a relation leads to. Each of the
four has its own idea of what a name is. They agree with the check on letters, digits and
underscores; `$` is accepted by the check, and by none of them.

## Main definitions

* `PlainName` — a text that is read as one name everywhere.

## Main results

* `exists_of_mark` — a valid name is plain up to the first `$` in it.
* `valid_names_refer_iff` — which valid names can be referred to.
-/

namespace TypedSheets

/-- A text that is one symbol, one word and an identifier. -/
structure PlainName (text : List Char) : Prop where
  /-- It starts like an identifier. -/
  starts : ∃ c rest, text = c :: rest ∧ Text.isNameStart c = true
  /-- It is one symbol. -/
  symbol : ∀ c ∈ text, Token.isSymbolChar c = true
  /-- It is one word. -/
  word : ∀ c ∈ text, Text.isWordChar c = true

/-! ### Characters of names -/

/-- A character of a name other than `$` goes on a symbol and a word. -/
theorem symbol_of_isNameTail {c : Char} (h : isNameTail c = true) (hc : c ≠ '$') :
    Token.isSymbolChar c = true ∧ Text.isWordChar c = true := by
  simp only [isNameTail, isNameHead, Bool.or_eq_true, beq_iff_eq, hc, or_false] at h
  rcases h with h | h
  · have hstart : Text.isNameStart c = true := by simpa [Text.isNameStart] using h
    refine ⟨?_, Text.isWordChar_of_isNameStart hstart⟩
    simp only [Token.isSymbolChar, Char.isAlphanum, Bool.or_eq_true, beq_iff_eq]
    rcases h with h | h
    · exact .inl (.inl h)
    · exact .inr h
  · exact ⟨by simp [Token.isSymbolChar, Char.isAlphanum, h], Text.isWordChar_of_isDigit h⟩

/-- What a valid name is made of. -/
theorem exists_of_isValidName {name : String} (h : isValidName name = true) :
    ∃ c rest, name.toList = c :: rest ∧ isNameHead c = true ∧
      ∀ d ∈ name.toList, isNameTail d = true := by
  unfold isValidName at h
  split at h
  · cases h
  · rename_i c rest htext
    rw [Bool.and_eq_true, List.all_eq_true] at h
    refine ⟨c, rest, htext, h.1, fun d hd => ?_⟩
    rw [htext] at hd
    rcases List.mem_cons.1 hd with rfl | hd
    · rw [isNameTail, h.1, Bool.true_or]
    · exact h.2 d hd

/-- A valid name without `$` is plain. -/
theorem plainName_of_isValidName {name : String} (h : isValidName name = true)
    (hmark : '$' ∉ name.toList) : PlainName name.toList := by
  obtain ⟨c, rest, htext, hc, hall⟩ := exists_of_isValidName h
  have hne {d : Char} (hd : d ∈ name.toList) : d ≠ '$' := fun heq => hmark (heq ▸ hd)
  refine ⟨⟨c, rest, htext, ?_⟩, fun d hd => (symbol_of_isNameTail (hall d hd) (hne hd)).1,
    fun d hd => (symbol_of_isNameTail (hall d hd) (hne hd)).2⟩
  simpa [isNameHead, Text.isNameStart, hne (htext ▸ List.mem_cons_self)] using hc

/-- A valid name with `$` in it is plain up to there. -/
theorem exists_of_mark {name : String} (h : isValidName name = true)
    (hmark : '$' ∈ name.toList) :
    ∃ before after, name.toList = before ++ '$' :: after ∧ (before = [] ∨ PlainName before) := by
  obtain ⟨before, after, htext, hbefore⟩ := List.eq_append_cons_of_mem hmark
  refine ⟨before, after, htext, ?_⟩
  cases before with
  | nil => exact .inl rfl
  | cons c before =>
    refine .inr ?_
    have hvalid : isValidName (String.ofList (c :: before)) = true := by
      rw [isValidName, htext, List.cons_append] at h
      simp only [Bool.and_eq_true, List.all_append] at h
      rw [isValidName, String.toList_ofList]
      simp [h.1, h.2.1]
    have hplain := plainName_of_isValidName hvalid (by rwa [String.toList_ofList])
    rwa [String.toList_ofList] at hplain

namespace PlainName

variable {text : List Char}

/-- A plain name is an identifier. -/
theorem isIdentifier (h : PlainName text) : Text.isIdentifier text = true := by
  obtain ⟨c, rest, rfl, hc⟩ := h.starts
  rw [Text.isIdentifier, hc, Bool.true_and, List.all_eq_true]
  exact fun d hd => h.word d (List.mem_cons_of_mem c hd)

/-- A plain name is read as one symbol, as far as it goes. -/
theorem scanFrom_append (h : PlainName text) {rest : List Char}
    (hrest : rest.takeWhile Token.isSymbolChar = []) (whole : String) (level : List Token) :
    Token.scanFrom whole level [] (text ++ rest) =
      Token.scanFrom whole (.value (String.ofList text) :: level) [] rest := by
  obtain ⟨c, tail, rfl, hc⟩ := h.starts
  have hne {d : Char} (hd : Text.isNameStart d = false) : c ≠ d := by
    rintro rfl
    cases hc.symm.trans hd
  have hlength : Token.operandLength (c :: (tail ++ rest)) = (c :: tail).length := by
    have hzero : c ≠ '0' := hne (by decide)
    have htail : (tail ++ rest).takeWhile Token.isSymbolChar = tail := by
      rw [List.takeWhile_append_of_pos fun d hd => h.symbol d (List.mem_cons_of_mem c hd), hrest,
        List.append_nil]
    simp [Token.operandLength, Text.stripHexMark, hzero, hc, htail, Nat.add_comm]
  rw [List.cons_append, Token.scanFrom]
  · rw [hlength]
    simp
  all_goals exact hne (by decide)

end PlainName

/-! ### Marks in names -/

section Uses

variable {n m : String}

/-- A valid name has no blanks in it. -/
theorem isBlank_of_isValidName (h : isValidName n = true) :
    ∀ c ∈ n.toList, Text.isBlank c = false := by
  intro c hc
  obtain ⟨-, -, -, -, hall⟩ := exists_of_isValidName h
  by_cases hmark : c = '$'
  · subst hmark
    decide
  · exact Text.isBlank_of_isWordChar (symbol_of_isNameTail (hall c hc) hmark).2

/-- Nothing starts with `$`. -/
theorem Token.scanFrom_mark (whole : String) (level : List Token) (after : List Char) :
    scanFrom whole level [] ('$' :: after) = .error (.unexpected '$' whole) := by
  have hlength : operandLength ('$' :: after) = 0 := by
    have hdigit : Text.isDecimalDigit '$' = false := by decide
    have hstart : Text.isNameStart '$' = false := by decide
    simp [operandLength, Text.stripHexMark, hdigit, hstart]
  rw [scanFrom]
  · simp [hlength]
  all_goals
    rintro ⟨⟩

/-- A plain name is one word. -/
theorem PlainName.isWord {text : List Char} (h : PlainName text) : Text.isWord text = true := by
  obtain ⟨c, rest, rfl, -⟩ := h.starts
  simpa [Text.isWord] using h.word

/-- A text with `$` in it is no word. -/
theorem not_isWord_of_mark {text : List Char} (h : '$' ∈ text) : Text.isWord text = false := by
  by_contra hword
  rw [Bool.not_eq_false, Text.isWord, Bool.and_eq_true, List.all_eq_true] at hword
  cases (hword.2 '$' h).symm.trans (by decide : Text.isWordChar '$' = false)

/-- A valid name is one word unless there is `$` in it. -/
theorem isWord_iff (h : isValidName n = true) : Text.isWord n.toList = true ↔ '$' ∉ n.toList := by
  constructor
  · intro hword hmark
    cases hword.symm.trans (not_isWord_of_mark hmark)
  · exact fun hmark => (plainName_of_isValidName h hmark).isWord

/-- The last character of a valid name. -/
theorem exists_last_of_isValidName (h : isValidName n = true) :
    ∃ before c, n.toList = before ++ [c] ∧ Text.isBlank c = false := by
  rcases List.eq_nil_or_concat' n.toList with hnil | ⟨before, c, hc⟩
  · rw [isValidName, hnil] at h
    cases h
  · exact ⟨before, c, hc, isBlank_of_isValidName h c (by simp [hc])⟩

/-! ### The four ways to refer to a name -/

/-- The member of an enum. -/
theorem parse_member_iff (h : isValidName n = true) :
    Token.parse n = .ok [.value n] ↔ '$' ∉ n.toList := by
  have hfilter : n.toList.filter (!Text.isBlank ·) = n.toList :=
    List.filter_eq_self.2 fun c hc => by simp [isBlank_of_isValidName h c hc]
  rw [Token.parse, Token.scan, hfilter]
  constructor
  · intro hparse hmark
    obtain ⟨before, after, htext, hbefore⟩ := exists_of_mark h hmark
    have hfault (level : List Token) (hscan : Token.scanFrom n [] [] n.toList =
        Token.scanFrom n level [] ('$' :: after)) : False := by
      rw [hscan, Token.scanFrom_mark] at hparse
      cases hparse
    rcases hbefore with rfl | hbefore
    · exact hfault [] (by rw [htext, List.nil_append])
    · exact hfault _ (by rw [htext, hbefore.scanFrom_append rfl])
  · intro hmark
    have hend : ([] : List Char).takeWhile Token.isSymbolChar = [] := rfl
    have hscan := (plainName_of_isValidName h hmark).scanFrom_append hend n []
    rw [List.append_nil, String.ofList_toList] at hscan
    rw [hscan, Token.scanFrom]
    rfl

/-- The constant of a table. -/
theorem constRef?_iff (hn : isValidName n = true) (hm : isValidName m = true) :
    (Cell.text ("Const:" ++ n ++ ":" ++ m)).constRef? = some (n, m) ↔
      '$' ∉ n.toList ∧ '$' ∉ m.toList := by
  obtain ⟨before, c, hlast, hblank⟩ := exists_last_of_isValidName hm
  have htext : ("Const:" ++ n ++ ":" ++ m).toList =
      ['C', 'o', 'n', 's', 't', ':'] ++ (n.toList ++ ':' :: m.toList) := by
    simp
  have htrim : Text.trim ("Const:" ++ n ++ ":" ++ m).toList = ("Const:" ++ n ++ ":" ++ m).toList :=
    Text.trim_of_ends htext
      (show _ = ['C', 'o', 'n', 's', 't', ':'] ++ (n.toList ++ ':' :: before) ++ [c] by
        rw [htext, hlast]
        simp)
      (by decide) hblank
  have hcut : Text.cutAt ':' (n.toList ++ ':' :: m.toList) = some (n.toList, m.toList) := by
    refine Text.cutAt_append_cons (fun hmem => ?_) _
    obtain ⟨-, -, -, -, hall⟩ := exists_of_isValidName hn
    cases hall ':' hmem
  rw [Cell.constRef?, htrim, htext, Cell.constNames?, Form.stripPrefix_append, ← isWord_iff hn,
    ← isWord_iff hm, ← Bool.and_eq_true]
  simp [hcut]

/-- The function of a call without arguments. -/
theorem parse_call_iff (h : isValidName n = true) :
    (∃ call, Call.parse (n ++ "()") = .ok call ∧ call.name = n) ↔ '$' ∉ n.toList := by
  obtain ⟨c, rest, htext, -, -⟩ := exists_of_isValidName h
  have hcall : (n ++ "()").toList = n.toList ++ ['(', ')'] := by simp
  have htrim : Text.trim (n ++ "()").toList = n.toList ++ ['(', ')'] := by
    rw [← hcall]
    refine Text.trim_of_ends (by rw [hcall, htext]; rfl)
      (show _ = (n.toList ++ ['(']) ++ [')'] by simp [hcall])
      (isBlank_of_isValidName h c (by simp [htext])) (by decide)
  constructor
  · rintro ⟨call, hparse, rfl⟩ hmark
    obtain ⟨-, hword, -⟩ := Call.parse_eq_ok_iff.1 hparse
    have hall := List.all_eq_true.1 (Bool.and_eq_true_iff.1 hword).2 '$' hmark
    exact absurd hall (by decide)
  · intro hmark
    have hword := (plainName_of_isValidName h hmark).word
    refine ⟨⟨n, []⟩, Call.parse_eq_ok_iff.2 ⟨[], ?_, by simp, ?_, rfl⟩, rfl⟩
    · rw [Text.isWord, htext, List.isEmpty_cons, Bool.not_false, Bool.true_and, List.all_eq_true,
        ← htext]
      exact hword
    · rw [htrim, List.append_assoc]
      rfl

/-- The column of a table that a relation leads to. -/
theorem parse_target_iff (hn : isValidName n = true) (hm : isValidName m = true) :
    TypeExpr.parse ("$" ++ n ++ "." ++ m) = .ok (.relation {} ⟨n, some m⟩) ↔
      '$' ∉ n.toList ∧ '$' ∉ m.toList := by
  let e : TypeExpr := .relation {} ⟨n, some m⟩
  have htext : "$" ++ n ++ "." ++ m = e.text := by
    apply String.toList_injective
    simp [e, TypeExpr.text, TypeExpr.chars, TypeExpr.mark, Target.text]
  have hwell : e.isWellFormed = (Text.isIdentifier n.toList && Text.isIdentifier m.toList) := rfl
  constructor
  · intro h
    have hidents := TypeExpr.isWellFormed_of_parse h
    rw [hwell, Bool.and_eq_true] at hidents
    have hne {name : String} (hident : Text.isIdentifier name.toList = true) :
        '$' ∉ name.toList := fun hmark => by
      cases hident.symm.trans (Text.isIdentifier_of_mem hmark (by decide))
    exact ⟨hne hidents.1, hne hidents.2⟩
  · rintro ⟨hn', hm'⟩
    rw [htext, TypeExpr.parse_text]
    rw [hwell, (plainName_of_isValidName hn hn').isIdentifier,
      (plainName_of_isValidName hm hm').isIdentifier]
    rfl

/-- **A valid name can be referred to if and only if there is no `$` in it**: as a member of an
enum, as a constant and its table, as a function, and as a table and its column. -/
theorem valid_names_refer_iff (hn : isValidName n = true) (hm : isValidName m = true) :
    (Token.parse n = .ok [.value n] ↔ '$' ∉ n.toList) ∧
    ((Cell.text ("Const:" ++ n ++ ":" ++ m)).constRef? = some (n, m) ↔
      '$' ∉ n.toList ∧ '$' ∉ m.toList) ∧
    ((∃ call, Call.parse (n ++ "()") = .ok call ∧ call.name = n) ↔ '$' ∉ n.toList) ∧
    (TypeExpr.parse ("$" ++ n ++ "." ++ m) = .ok (.relation {} ⟨n, some m⟩) ↔
      '$' ∉ n.toList ∧ '$' ∉ m.toList) :=
  ⟨parse_member_iff hn, constRef?_iff hn hm, parse_call_iff hn, parse_target_iff hn hm⟩

/-- Names of letters, digits and underscores can be referred to. -/
theorem valid_names_refer :
    isValidName "_Max2" = true ∧ isValidName "Id" = true ∧
    Token.parse "_Max2" = .ok [.value "_Max2"] ∧
    (Cell.text "Const:_Max2:Id").constRef? = some ("_Max2", "Id") ∧
    (∃ call, Call.parse "_Max2()" = .ok call ∧ call.name = "_Max2") ∧
    TypeExpr.parse "$_Max2.Id" = .ok (.relation {} ⟨"_Max2", some "Id"⟩) := by
  have hn : isValidName "_Max2" = true := by decide
  have hm : isValidName "Id" = true := by decide
  have hrefer := valid_names_refer_iff hn hm
  exact ⟨hn, hm, hrefer.1.2 (by decide), hrefer.2.1.2 (by decide), hrefer.2.2.1.2 (by decide),
    hrefer.2.2.2.2 (by decide)⟩

/-- A valid name with `$` in it cannot be referred to at all. -/
theorem valid_names_refer_fails :
    isValidName "$meta2" = true ∧
    Token.parse "$meta2" = .error (.parse "unexpected '$' in enum expression '$meta2'") ∧
    (Cell.text "Const:$meta2:Id").constRef? = none ∧
    Call.parse "$meta2()" = .error (.parse "'$meta2()' is not a DSL call") ∧
    TypeExpr.parse "$$meta2.Id" =
      .error (.parse "'$meta2.Id' is not a valid relation target in '$$meta2.Id'") := by
  have htext : "$meta2".toList.filter (!Text.isBlank ·) = '$' :: "meta2".toList := by decide
  refine ⟨by decide, ?_, by decide +kernel, by decide +kernel, by decide +kernel⟩
  rw [Token.parse, Token.scan, htext, Token.scanFrom_mark]
  rfl

end Uses

end TypedSheets
