import TypedSheets.Proofs.Text.Trim
import TypedSheets.Text.Word

/-!
# Words in texts

Word characters are neither blank nor any of the marks and brackets that texts are taken apart at,
so that names stay whole when a text is trimmed, cut or peeled.

## Main results

* `Text.isBlank_of_isWordChar` — a word character is not blank.
* `Text.trim_of_ends` — a text with no blanks at its ends is trimmed.
* `Text.isWordChar_of_isIdentifier` — an identifier is made of word characters.
-/

namespace TypedSheets.Text

/-! ### Trimmed texts -/

theorem trimStart_cons {c : Char} (h : isBlank c = false) (text : List Char) :
    trimStart (c :: text) = c :: text := by
  rw [trimStart, List.dropWhile_cons_of_neg (by simp [h])]

theorem trimEnd_concat {c : Char} (h : isBlank c = false) (text : List Char) :
    trimEnd (text ++ [c]) = text ++ [c] := by
  rw [trimEnd_eq_rdropWhile, List.rdropWhile_concat_neg _ _ _ (by simp [h])]

/-- A text that neither starts nor ends with a blank is trimmed. -/
theorem trim_of_ends {text before after : List Char} {first last : Char}
    (hfirst : text = first :: after) (hlast : text = before ++ [last])
    (hf : isBlank first = false) (hl : isBlank last = false) : trim text = text := by
  have hstart : trimStart text = text := by rw [hfirst, trimStart_cons hf]
  rw [trim, hstart, hlast, trimEnd_concat hl]

/-- A text without blanks at its start does not start with a blank. -/
theorem isBlank_of_trimStart_cons {text : List Char} {c : Char}
    (h : trimStart (c :: text) = c :: text) : isBlank c = false := by
  by_contra hblank
  rw [Bool.not_eq_false] at hblank
  have hle := length_trimStart_le text
  rw [trimStart, List.dropWhile_cons_of_pos hblank] at h
  rw [trimStart, h, List.length_cons] at hle
  exact Nat.not_succ_le_self _ hle

/-- A text without blanks at its end does not end with a blank. -/
theorem isBlank_of_trimEnd_concat {text : List Char} {c : Char}
    (h : trimEnd (text ++ [c]) = text ++ [c]) : isBlank c = false := by
  have hreverse := congrArg List.reverse h
  rw [trimEnd, List.reverse_reverse, List.reverse_append] at hreverse
  exact isBlank_of_trimStart_cons hreverse

/-- A trimmed text has no blanks at its ends. -/
theorem ends_of_trim {text : List Char} (h : trim text = text) :
    (∀ c ∈ text.head?, isBlank c = false) ∧ ∀ c ∈ text.getLast?, isBlank c = false := by
  constructor
  · intro c hc
    obtain ⟨rest, rfl⟩ := List.head?_eq_some_iff.1 hc
    exact isBlank_of_trimStart_cons (h ▸ trimStart_trim _)
  · intro c hc
    obtain ⟨before, rfl⟩ := List.getLast?_eq_some_iff.1 hc
    exact isBlank_of_trimEnd_concat (h ▸ trimEnd_trim _)

/-- A text without blanks is trimmed. -/
theorem trim_of_not_blank {text : List Char} (h : ∀ c ∈ text, isBlank c = false) :
    trim text = text := by
  cases text with
  | nil => rfl
  | cons c rest =>
    obtain ⟨before, last, hlast⟩ := List.eq_nil_or_concat (c :: rest) |>.resolve_left (by simp)
    rw [List.concat_eq_append] at hlast
    exact trim_of_ends rfl hlast (h c List.mem_cons_self) (h last (by rw [hlast]; simp))

/-- Blanks at the end of a text with one more character in front. -/
theorem trimEnd_cons (c : Char) (text : List Char) :
    trimEnd (c :: text) =
      if isBlank c && (trimEnd text).isEmpty then [] else c :: trimEnd text := by
  unfold trimEnd
  rw [List.reverse_cons, List.dropWhile_append]
  cases hrest : text.reverse.dropWhile isBlank with
  | nil => cases hc : isBlank c <;> simp [List.dropWhile, hc]
  | cons d rest => simp

/-- Blanks at both ends may be dropped at the end first. -/
theorem trimStart_trimEnd (text : List Char) : trimStart (trimEnd text) = trim text := by
  induction text with
  | nil => rfl
  | cons c text ih =>
    cases hc : isBlank c with
    | false =>
      rw [trim, trimStart_cons hc, trimEnd_cons, hc]
      exact trimStart_cons hc _
    | true =>
      have hdrop (rest : List Char) : trimStart (c :: rest) = trimStart rest := by
        rw [trimStart, List.dropWhile_cons_of_pos hc]
        rfl
      rw [trim, hdrop, trimEnd_cons, hc, Bool.true_and]
      split
      · rename_i hempty
        rw [List.isEmpty_iff] at hempty
        rw [hempty] at ih
        exact ih
      · rw [hdrop, ih]
        rfl

theorem trim_cons_blank {c : Char} (h : isBlank c = true) (text : List Char) :
    trim (c :: text) = trim text := by
  rw [trim, trim, trimStart, List.dropWhile_cons_of_pos h]
  rfl

theorem trim_concat_blank {c : Char} (h : isBlank c = true) (text : List Char) :
    trim (text ++ [c]) = trim text := by
  rw [← trimStart_trimEnd, trimEnd_eq_rdropWhile, List.rdropWhile_concat_pos _ _ _ h,
    ← trimEnd_eq_rdropWhile, trimStart_trimEnd]

/-- What ends with no blank ends so without the blanks at its start. -/
theorem trimStart_concat {c : Char} (h : isBlank c = false) (text : List Char) :
    trimStart (text ++ [c]) = trimStart text ++ [c] := by
  unfold trimStart
  rw [List.dropWhile_append]
  split
  · rename_i hempty
    rw [List.isEmpty_iff.1 hempty, List.dropWhile_cons_of_neg (by simp [h])]
    rfl
  · rfl

/-- A mark at the end keeps a trimmed text trimmed. -/
theorem trim_concat_of_trim {text : List Char} {c : Char} (hc : isBlank c = false)
    (h : trim text = text) : trim (text ++ [c]) = text ++ [c] := by
  have hstart : trimStart text = text := by rw [← h, trimStart_trim]
  rw [trim, trimStart_concat hc, trimEnd_concat hc, hstart]

/-! ### Word characters -/

/-- The code points of the blank characters. -/
def blankCodes : List Nat :=
  [9, 10, 11, 12, 13, 0x20, 0x85, 0xA0, 0x1680, 0x2000, 0x2001, 0x2002, 0x2003, 0x2004, 0x2005,
    0x2006, 0x2007, 0x2008, 0x2009, 0x200A, 0x2028, 0x2029, 0x202F, 0x205F, 0x3000]

theorem mem_blankCodes {c : Char} (h : isBlank c = true) : c.toNat ∈ blankCodes := by
  simp only [isBlank, Bool.or_eq_true, Bool.and_eq_true, decide_eq_true_eq, beq_iff_eq] at h
  simp only [blankCodes, List.mem_cons, List.not_mem_nil, or_false]
  omega

/-- A word character is not blank. -/
theorem isBlank_of_isWordChar {c : Char} (h : isWordChar c = true) : isBlank c = false := by
  have hall : ∀ n ∈ blankCodes, isWordChar (Char.ofNat n) = false := by decide +kernel
  cases hb : isBlank c with
  | false => rfl
  | true =>
    have hword := hall c.toNat (mem_blankCodes hb)
    rw [Char.ofNat_toNat, h] at hword
    cases hword

/-- A character of a class differs from one that is not of it. -/
theorem ne_of_isWordChar {c d : Char} (h : isWordChar c = true) (hd : isWordChar d = false) :
    c ≠ d := by
  rintro rfl
  rw [h] at hd
  cases hd

theorem isWordChar_of_isNameStart {c : Char} (h : isNameStart c = true) : isWordChar c = true := by
  have hascii : c.toNat < 128 := by
    change (decide (c.val ≥ 'A'.val ∧ c.val ≤ 'Z'.val) ||
      (decide (c.val ≥ 'a'.val) && decide (c.val ≤ 'z'.val)) || c == '_') = true at h
    simp only [Bool.or_eq_true, Bool.and_eq_true, decide_eq_true_eq, beq_iff_eq] at h
    rcases h with (⟨-, h⟩ | ⟨-, h⟩) | rfl
    · exact Nat.lt_of_le_of_lt h (by decide)
    · exact Nat.lt_of_le_of_lt h (by decide)
    · decide
  simp only [isNameStart, Bool.or_eq_true] at h
  simp only [isWordChar, hascii, if_true, Char.isAlphanum, Bool.or_eq_true]
  rcases h with h | h
  · exact .inl (.inl h)
  · exact .inr h

/-- An identifier starts with a letter or an underscore, and is made of word characters. -/
theorem isWordChar_of_isIdentifier {text : List Char} (h : isIdentifier text = true) :
    ∃ c rest, text = c :: rest ∧ ∀ d ∈ text, isWordChar d = true := by
  cases text with
  | nil => cases h
  | cons c rest =>
    simp only [isIdentifier, Bool.and_eq_true, List.all_eq_true] at h
    refine ⟨c, rest, rfl, fun d hd => ?_⟩
    rcases List.mem_cons.1 hd with rfl | hd
    · exact isWordChar_of_isNameStart h.1
    · exact h.2 d hd

/-- A text with a character that is none of a word is no identifier. -/
theorem isIdentifier_of_mem {text : List Char} {c : Char} (hc : c ∈ text)
    (hword : isWordChar c = false) : isIdentifier text = false := by
  by_contra hident
  obtain ⟨-, -, -, hall⟩ := isWordChar_of_isIdentifier (by simpa using hident)
  cases hword.symm.trans (hall c hc)

/-! ### Digits -/

theorem toNat_lt_of_isDigit {c : Char} (h : c.isDigit = true) : c.toNat < 128 := by
  simp only [Char.isDigit, Bool.and_eq_true, decide_eq_true_eq] at h
  exact Nat.lt_of_le_of_lt h.2 (by decide)

theorem isWordChar_of_isDigit {c : Char} (h : c.isDigit = true) : isWordChar c = true := by
  simp [isWordChar, toNat_lt_of_isDigit h, Char.isAlphanum, h]

/-- A digit differs from a character that is none. -/
theorem ne_of_isDigit {c d : Char} (h : c.isDigit = true) (hd : d.isDigit = false) : c ≠ d := by
  rintro rfl
  cases h.symm.trans hd

/-- A name does not start with a digit. -/
theorem isNameStart_of_isDigit {c : Char} (h : c.isDigit = true) : isNameStart c = false := by
  have hall : ∀ n ≤ 57, 48 ≤ n → isNameStart (Char.ofNat n) = false := by decide
  simp only [Char.isDigit, Bool.and_eq_true, decide_eq_true_eq] at h
  rw [← Char.ofNat_toNat c]
  exact hall c.toNat h.2 h.1

end TypedSheets.Text
