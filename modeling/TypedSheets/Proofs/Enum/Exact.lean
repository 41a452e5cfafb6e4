import TypedSheets.Enum.Expression
import TypedSheets.Proofs.Text.Words

/-!
# Expressions are read exactly

Reading the tokens of an expression loses nothing but blanks, and makes nothing up: the tokens can
be written back to the text that they are read from. A text is refused only if a character in it
starts no token or if its parentheses do not match.

## Main definitions

* `Token.compact` — a text without its blanks.
* `Token.isOperandChar`, `Token.isTokenChar` — the characters that operands and tokens are made of.
* `Token.Closes` — a text closes the parentheses in it, and some that have been opened before.
* `Token.written` — tokens, written one after the other.

## Main results

* `Token.scanFrom_isOk_iff` — which texts are read behind open groups.
* `Token.written_of_scanFrom` — what is read is what is written.
* `Token.parse_exact` — which texts are read, and that what is read is written and read again.
-/

namespace TypedSheets.Token

/-! ### Characters -/

/-- A text without its blanks. -/
def compact (text : String) : List Char :=
  text.toList.filter (!Text.isBlank ·)

/-- A character that operands are made of: an ASCII letter, an underscore, or a decimal digit of any
script. -/
def isOperandChar (c : Char) : Bool :=
  Text.isNameStart c || Text.isDecimalDigit c

/-- A character that tokens are made of: one of an operand, an operator, `~` or a parenthesis. -/
def isTokenChar (c : Char) : Bool :=
  isOperandChar c || ['(', ')', '&', '|', '~'].contains c

theorem isOperandChar_of_isDigit {c : Char} (h : c.isDigit = true) : isOperandChar c = true := by
  rw [isOperandChar, Text.isDecimalDigit, if_pos (Text.toNat_lt_of_isDigit h), h, Bool.or_true]

theorem isOperandChar_of_isSymbolChar {c : Char} (h : isSymbolChar c = true) :
    isOperandChar c = true := by
  simp only [isSymbolChar, Char.isAlphanum, Bool.or_eq_true] at h
  rcases h with (h | h) | h
  · simp [isOperandChar, Text.isNameStart, h]
  · exact isOperandChar_of_isDigit h
  · simp [isOperandChar, Text.isNameStart, h]

theorem isOperandChar_of_isHexDigit {c : Char} (h : isHexDigit c = true) :
    isOperandChar c = true := by
  by_cases hdigit : c.isDigit = true
  · exact isOperandChar_of_isDigit hdigit
  · refine isOperandChar_of_isSymbolChar ?_
    by_contra hsymbol
    have halpha : c.isAlpha = (c.isUpper || c.isLower) := rfl
    simp only [isSymbolChar, Char.isAlphanum, halpha, Bool.or_eq_true, not_or,
      Bool.not_eq_true] at hsymbol
    simp [isHexDigit, Text.digitValue, hsymbol] at h

/-- No character of an operand is a parenthesis. -/
theorem ne_of_isOperandChar {c d : Char} (h : isOperandChar c = true)
    (hd : isOperandChar d = false) : c ≠ d := by
  rintro rfl
  cases h.symm.trans hd

/-! ### Operands -/

/-- What stands behind the mark of a hexadecimal numeral, and the mark. -/
theorem eq_of_stripHexMark {text digits : List Char} (h : Text.stripHexMark text = some digits) :
    ∃ a b, text = a :: b :: digits ∧ isOperandChar a = true ∧ isOperandChar b = true := by
  unfold Text.stripHexMark at h
  split at h
  · cases h
    exact ⟨_, _, rfl, by decide, by decide⟩
  · cases h
    exact ⟨_, _, rfl, by decide, by decide⟩
  · cases h

/-- An operand is made of its characters. -/
theorem isOperandChar_of_mem_take {text : List Char} {c : Char}
    (h : c ∈ text.take (operandLength text)) : isOperandChar c = true := by
  have htaken (p : Char → Bool) (text : List Char) :
      text.take (text.takeWhile p).length = text.takeWhile p :=
    (List.prefix_iff_eq_take.1 (List.takeWhile_prefix p)).symm
  -- A numeral without hexadecimal digits is read as if it had no mark.
  have hplain {d : Char} {rest : List Char}
      (h : c ∈ (d :: rest).take (if Text.isNameStart d = true
        then 1 + (rest.takeWhile isSymbolChar).length
        else ((d :: rest).takeWhile Text.isDecimalDigit).length)) : isOperandChar c = true := by
    split at h
    · rename_i hstart
      rw [Nat.add_comm, List.take_succ_cons, htaken, List.mem_cons] at h
      rcases h with rfl | h
      · rw [isOperandChar, hstart, Bool.true_or]
      · exact isOperandChar_of_isSymbolChar (List.mem_takeWhile_imp h)
    · rw [htaken] at h
      rw [isOperandChar, List.mem_takeWhile_imp h, Bool.or_true]
  cases text with
  | nil => cases h
  | cons d rest =>
    rw [operandLength] at h
    cases hstrip : Text.stripHexMark (d :: rest) with
    | none =>
      simp only [hstrip, Nat.lt_irrefl, if_false] at h
      exact hplain h
    | some digits =>
      simp only [hstrip] at h
      split at h
      · obtain ⟨a, b, htext, ha, hb⟩ := eq_of_stripHexMark hstrip
        rw [htext, List.take_succ_cons, List.take_succ_cons, htaken, List.mem_cons,
          List.mem_cons] at h
        rcases h with rfl | rfl | h
        · exact ha
        · exact hb
        · exact isOperandChar_of_isHexDigit (List.mem_takeWhile_imp h)
      · exact hplain h

/-- There is an operand wherever one of its characters stands. -/
theorem operandLength_pos_iff (c : Char) (rest : List Char) :
    0 < operandLength (c :: rest) ↔ isOperandChar c = true := by
  constructor
  · intro h
    have hfirst : c ∈ (c :: rest).take (operandLength (c :: rest)) := by
      obtain ⟨n, hn⟩ := Nat.exists_eq_succ_of_ne_zero h.ne'
      rw [hn]
      exact List.mem_cons_self
    exact isOperandChar_of_mem_take hfirst
  · intro h
    rw [operandLength]
    split_ifs with hhex hstart
    · exact Nat.succ_pos _
    · exact Nat.add_pos_left Nat.one_pos _
    · have hdigit : Text.isDecimalDigit c = true := by
        rwa [isOperandChar, Bool.of_not_eq_true hstart, Bool.false_or] at h
      rw [List.takeWhile_cons_of_pos hdigit]
      exact Nat.succ_pos _

/-! ### Parentheses -/

/-- A text closes the parentheses in it and `depth` more, and no prefix of it closes more than is
open there. -/
structure Closes (depth : Nat) (text : List Char) : Prop where
  never_below : ∀ before, before <+: text → before.count ')' ≤ depth + before.count '('
  ends : text.count ')' = depth + text.count '('

namespace Closes

variable {depth : Nat} {rest : List Char}

theorem nil_iff : Closes depth [] ↔ depth = 0 := by
  refine ⟨fun h => h.ends.symm, ?_⟩
  rintro rfl
  exact ⟨fun before h => by rw [List.prefix_nil.1 h]; exact Nat.le_refl 0, rfl⟩

/-- One character more in front, which opens and closes so many. -/
theorem cons_iff_of_count {c : Char} {after : Nat} (opened closed : Nat)
    (hopen : ∀ text, (c :: text).count '(' = text.count '(' + opened)
    (hclose : ∀ text, (c :: text).count ')' = text.count ')' + closed)
    (h : depth + opened = after + closed) : Closes depth (c :: rest) ↔ Closes after rest := by
  constructor
  · rintro ⟨hbelow, hends⟩
    refine ⟨fun before hbefore => ?_, ?_⟩
    · have := hbelow (c :: before) (List.cons_prefix_cons.2 ⟨rfl, hbefore⟩)
      rw [hopen, hclose] at this
      omega
    · rw [hopen, hclose] at hends
      omega
  · rintro ⟨hbelow, hends⟩
    refine ⟨fun before hbefore => ?_, ?_⟩
    · rcases List.prefix_cons_iff.1 hbefore with rfl | ⟨before, rfl, hrest⟩
      · exact Nat.zero_le _
      · have := hbelow before hrest
        rw [hopen, hclose]
        omega
    · rw [hopen, hclose]
      omega

theorem open_iff : Closes depth ('(' :: rest) ↔ Closes (depth + 1) rest :=
  cons_iff_of_count 1 0 (fun _ => List.count_cons_self)
    (fun _ => List.count_cons_of_ne (by decide)) rfl

theorem close_iff : Closes (depth + 1) (')' :: rest) ↔ Closes depth rest :=
  cons_iff_of_count 0 1 (fun _ => List.count_cons_of_ne (by decide))
    (fun _ => List.count_cons_self) rfl

/-- A text does not start with the closing of what is not open. -/
theorem not_close_zero : ¬ Closes 0 (')' :: rest) := by
  intro h
  have := h.never_below [')'] (List.cons_prefix_cons.2 ⟨rfl, List.nil_prefix⟩)
  exact absurd this (by decide)

theorem cons_iff {c : Char} (hopen : c ≠ '(') (hclose : c ≠ ')') :
    Closes depth (c :: rest) ↔ Closes depth rest :=
  cons_iff_of_count 0 0 (fun _ => List.count_cons_of_ne hopen)
    (fun _ => List.count_cons_of_ne hclose) rfl

theorem append_iff {text : List Char} (h : ∀ c ∈ text, isOperandChar c = true) :
    Closes depth (text ++ rest) ↔ Closes depth rest := by
  induction text with
  | nil => rfl
  | cons c text ih =>
    obtain ⟨hc, htext⟩ := List.forall_mem_cons.1 h
    rw [List.cons_append, cons_iff (ne_of_isOperandChar hc (by decide))
      (ne_of_isOperandChar hc (by decide)), ih htext]

end Closes

/-! ### Which texts are read -/

/-- Behind open groups, a text is read if and only if every character of it is one of tokens and its
parentheses close those groups. -/
theorem scanFrom_isOk_iff (whole : String) (level : List Token) (outer : List (List Token))
    (text : List Char) :
    (∃ tokens, scanFrom whole level outer text = .ok tokens) ↔
      (∀ c ∈ text, isTokenChar c = true) ∧ Closes outer.length text := by
  have hmark {c : Char} (hc : isTokenChar c = true) (rest : List Char) :
      (∀ d ∈ c :: rest, isTokenChar d = true) ↔ ∀ d ∈ rest, isTokenChar d = true := by
    rw [List.forall_mem_cons, and_iff_right hc]
  fun_induction scanFrom whole level outer text with
  | case1 level outer hempty =>
    rw [List.isEmpty_iff.1 hempty]
    exact iff_of_true ⟨_, rfl⟩ ⟨fun _ h => (List.not_mem_nil h).elim, Closes.nil_iff.2 rfl⟩
  | case2 level outer hempty =>
    refine iff_of_false (fun ⟨_, h⟩ => nomatch h) fun ⟨_, h⟩ => hempty ?_
    rw [List.isEmpty_iff, ← List.length_eq_zero_iff]
    exact Closes.nil_iff.1 h
  | case3 level outer rest ih =>
    refine ih.trans ?_
    rw [hmark (by decide), Closes.open_iff, List.length_cons]
  | case4 level rest =>
    exact iff_of_false (fun ⟨_, h⟩ => nomatch h) fun ⟨_, h⟩ => Closes.not_close_zero h
  | case5 level rest outerLevel outer ih =>
    rw [List.unattach_reverse, List.unattach_attach] at ih
    refine ih.trans ?_
    rw [hmark (by decide), List.length_cons, Closes.close_iff]
  | case6 level outer rest ih =>
    refine ih.trans ?_
    rw [hmark (by decide), Closes.cons_iff (by decide) (by decide)]
  | case7 level outer rest ih =>
    refine ih.trans ?_
    rw [hmark (by decide), Closes.cons_iff (by decide) (by decide)]
  | case8 level outer rest ih =>
    refine ih.trans ?_
    rw [hmark (by decide), Closes.cons_iff (by decide) (by decide)]
  | case9 level outer c rest _ _ _ _ _ n hn ih =>
    have hoperand : ∀ d ∈ (c :: rest).take n, isOperandChar d = true :=
      fun _ => isOperandChar_of_mem_take
    have hchars : (∀ d ∈ c :: rest, isTokenChar d = true) ↔
        ∀ d ∈ (c :: rest).drop n, isTokenChar d = true := by
      conv_lhs => rw [← List.take_append_drop n (c :: rest), List.forall_mem_append]
      refine and_iff_right fun d hd => ?_
      rw [isTokenChar, hoperand d hd, Bool.true_or]
    have hcloses : Closes outer.length (c :: rest) ↔ Closes outer.length ((c :: rest).drop n) := by
      conv_lhs => rw [← List.take_append_drop n (c :: rest)]
      exact Closes.append_iff hoperand
    refine ih.trans ?_
    rw [hchars, hcloses]
  | case10 level outer c rest hopen hclose hand hor hinvert n hn =>
    refine iff_of_false (fun ⟨_, h⟩ => nomatch h) fun ⟨h, _⟩ => ?_
    have hc := h c List.mem_cons_self
    rw [isTokenChar, Bool.of_not_eq_true
      (fun hoperand => hn ((operandLength_pos_iff c rest).2 hoperand)), Bool.false_or] at hc
    simp only [List.contains_eq_mem, List.mem_cons, List.not_mem_nil, or_false,
      decide_eq_true_eq] at hc
    rcases hc with h | h | h | h | h
    · exact hopen h
    · exact hclose h
    · exact hand h
    · exact hor h
    · exact hinvert h

/-! ### What is read is what is written -/

mutual

/-- One token, written; a group stands in parentheses. -/
def writtenOf : Token → List Char
  | value text => text.toList
  | op o => [o.char]
  | invert => ['~']
  | group inner => '(' :: written inner ++ [')']

/-- Tokens, written one after the other. -/
def written : List Token → List Char
  | [] => []
  | t :: ts => writtenOf t ++ written ts

end

theorem written_append (ts us : List Token) : written (ts ++ us) = written ts ++ written us := by
  induction ts with
  | nil => rfl
  | cons t ts ih => rw [List.cons_append, written, written, ih, List.append_assoc]

/-- What has been read behind open groups, written: `level` and `outer` are as in reading. -/
def writtenOpen (level : List Token) : List (List Token) → List Char
  | [] => written level.reverse
  | around :: outer => writtenOpen around outer ++ '(' :: written level.reverse

/-- A token more in the innermost group is a token more behind all. -/
theorem writtenOpen_cons (t : Token) (level : List Token) (outer : List (List Token)) :
    writtenOpen (t :: level) outer = writtenOpen level outer ++ writtenOf t := by
  have hlevel : written (t :: level).reverse = written level.reverse ++ writtenOf t := by
    rw [List.reverse_cons, written_append, written, written, List.append_nil]
  cases outer with
  | nil => exact hlevel
  | cons around outer => rw [writtenOpen, writtenOpen, hlevel, List.append_assoc, List.cons_append]

/-- The tokens that are read write as what was read before and the text. -/
theorem written_of_scanFrom {whole : String} {level : List Token} {outer : List (List Token)}
    {text : List Char} {tokens : List Token} (h : scanFrom whole level outer text = .ok tokens) :
    written tokens = writtenOpen level outer ++ text := by
  fun_induction scanFrom whole level outer text with
  | case1 level outer hempty =>
    cases h
    rw [List.isEmpty_iff.1 hempty, writtenOpen, List.append_nil]
  | case2 => cases h
  | case3 level outer rest ih => rw [ih h, writtenOpen, List.append_assoc]; rfl
  | case4 => cases h
  | case5 level rest outerLevel outer ih =>
    rw [List.unattach_reverse, List.unattach_attach] at ih
    rw [ih h, writtenOpen_cons, writtenOf, writtenOpen]
    simp only [List.append_assoc, List.cons_append, List.nil_append]
  | case6 level outer rest ih => rw [ih h, writtenOpen_cons, writtenOf, List.append_assoc]; rfl
  | case7 level outer rest ih => rw [ih h, writtenOpen_cons, writtenOf, List.append_assoc]; rfl
  | case8 level outer rest ih => rw [ih h, writtenOpen_cons, writtenOf, List.append_assoc]; rfl
  | case9 level outer c rest _ _ _ _ _ n hn ih =>
    rw [ih h, writtenOpen_cons, writtenOf, String.toList_ofList, List.append_assoc,
      List.take_append_drop]
  | case10 => cases h

/-! ### Exactness -/

/-- The whole text only stands in faults. -/
theorem scanFrom_whole {whole : String} {level : List Token} {outer : List (List Token)}
    {text : List Char} {tokens : List Token} (h : scanFrom whole level outer text = .ok tokens)
    (whole' : String) : scanFrom whole' level outer text = .ok tokens := by
  fun_induction scanFrom whole level outer text with
  | case1 level outer hempty => rw [scanFrom, if_pos hempty, ← h]
  | case2 => cases h
  | case3 level outer rest ih => rw [scanFrom]; exact ih h
  | case4 => cases h
  | case5 level rest outerLevel outer ih =>
    rw [List.unattach_reverse, List.unattach_attach] at ih
    rw [scanFrom]
    exact ih h
  | case6 level outer rest ih => rw [scanFrom]; exact ih h
  | case7 level outer rest ih => rw [scanFrom]; exact ih h
  | case8 level outer rest ih => rw [scanFrom]; exact ih h
  | case9 level outer c rest hopen hclose hand hor hinvert n hn ih =>
    rw [scanFrom, if_pos hn]
    · exact ih h
    all_goals assumption
  | case10 => cases h

theorem parse_eq_ok_iff {text : String} {tokens : List Token} :
    parse text = .ok tokens ↔ scan text = .ok tokens := by
  unfold parse
  cases scan text <;> simp [Except.mapError]

/-- A text without its blanks has no blanks. -/
theorem compact_compact (text : String) :
    compact (String.ofList (compact text)) = compact text := by
  rw [compact, String.toList_ofList, compact, List.filter_filter]
  simp only [Bool.and_self]

/-- A text is read if and only if, apart from blanks, every character of it is one of tokens and its
parentheses match. What is read is written as the text without its blanks, and is read from it. -/
theorem parse_exact (text : String) :
    ((∃ tokens, parse text = .ok tokens) ↔
      (∀ c ∈ compact text, isTokenChar c = true) ∧ Closes 0 (compact text)) ∧
    ∀ tokens, parse text = .ok tokens →
      written tokens = compact text ∧ parse (String.ofList (written tokens)) = .ok tokens := by
  refine ⟨?_, fun tokens h => ?_⟩
  · simp only [parse_eq_ok_iff]
    exact scanFrom_isOk_iff text [] [] (compact text)
  · rw [parse_eq_ok_iff] at h ⊢
    have hwritten : written tokens = compact text := written_of_scanFrom h
    refine ⟨hwritten, ?_⟩
    rw [hwritten]
    refine (congrArg _ (compact_compact text)).trans ?_
    exact scanFrom_whole h _

/-- An expression with a blank, a group, and a mark `0x` without hexadecimal digits. -/
theorem parse_grouped :
    let tokens := [value "A", op .or, group [value "0", value "x", invert]]
    parse "A |(0x~)" = .ok tokens ∧ written tokens = compact "A |(0x~)" ∧
      parse (String.ofList (written tokens)) = .ok tokens := by
  intro tokens
  have hparse : parse "A |(0x~)" = .ok tokens := by
    have hA : operandLength ['A', '|', '(', '0', 'x', '~', ')'] = 1 := by decide
    have hzero : operandLength ['0', 'x', '~', ')'] = 1 := by decide
    have hx : operandLength ['x', '~', ')'] = 1 := by decide
    simp [tokens, parse, scan, scanFrom, Text.isBlank, hA, hzero, hx, Except.mapError]
  exact ⟨hparse, (parse_exact "A |(0x~)").2 tokens hparse⟩

end TypedSheets.Token
