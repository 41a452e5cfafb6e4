import Mathlib.Algebra.Order.Ring.Nat
import Mathlib.Data.List.Basic
import Mathlib.Data.List.Induction
import TypedSheets.Text.Numeral

/-!
# Numerals

A decimal numeral denotes the number that it is written for, whatever zeros stand in front of it,
and so does a hexadecimal one. Numbers with one numeral are therefore the same.

## Main definitions

* `Text.hexadecimal` — the hexadecimal numeral of a number.

## Main results

* `Text.readNat_eq_some_iff` — decimal digits denote the number they are the digits of.
* `Text.readNat_padLeft`, `Text.readInt_signedDecimal` — a numeral denotes its number.
* `Text.padLeft_inj`, `Text.intText_injective` — a number is told from its numeral.
* `Text.isDigit_of_mem_padLeft` — a numeral has digits only.
-/

namespace TypedSheets.Text

/-! ### Digits -/

theorem isDigit_digitChar {d : Nat} (h : d < 10) : (digitChar d).isDigit = true := by
  revert d
  decide

/-- A text of digits has no mark of a hexadecimal numeral. -/
theorem stripHexMark_digits {text : List Char} (h : ∀ c ∈ text, c.isDigit = true) :
    stripHexMark text = none := by
  unfold stripHexMark
  split
  · cases h 'x' (by simp)
  · cases h 'X' (by simp)
  · rfl

theorem digitValue_digitChar {d : Nat} (h : d < 10) : digitValue 10 (digitChar d) = some d := by
  revert d
  decide

/-- A digit is the same in lower case. -/
theorem toLower_of_isDigit {c : Char} (h : c.isDigit = true) : c.toLower = c := by
  unfold Char.toLower
  split
  · rename_i hupper
    simp only [Char.isDigit, ge_iff_le, Bool.and_eq_true, decide_eq_true_eq] at h
    exact absurd (UInt32.le_trans hupper.1 h.2) (by decide)
  · rfl

theorem readDigits_append (radix soFar : Nat) (text rest : List Char) :
    readDigits radix soFar (text ++ rest) =
      (readDigits radix soFar text).bind fun n => readDigits radix n rest := by
  induction text generalizing soFar with
  | nil => rfl
  | cons c text ih =>
    rw [List.cons_append, readDigits, readDigits]
    cases digitValue radix c with
    | none => rfl
    | some d => exact ih _

/-! ### What texts of digits denote -/

theorem toNat_le_of_isDigit {c : Char} (h : c.isDigit = true) : c.toNat ≤ 57 := by
  have hbounds : 48 ≤ c.toNat ∧ c.toNat ≤ 57 := by
    simpa [Char.isDigit, UInt32.le_iff_toNat_le] using h
  exact hbounds.2

theorem digitValue_of_isDigit {c : Char} (h : c.isDigit = true) :
    digitValue 10 c = some (c.toNat - '0'.toNat) := by
  have hle := toNat_le_of_isDigit h
  have hless : c.toNat - 48 < 10 := by omega
  simp [digitValue, h, hless]

/-- Letters denote more than nine. -/
theorem digitValue_of_not_isDigit {c : Char} (h : c.isDigit = false) : digitValue 10 c = none := by
  unfold digitValue
  rw [h]
  dsimp only
  split
  · contradiction
  · split
    · exact Option.filter_eq_none_iff.2 fun v hv => by cases hv; simp
    · split
      · exact Option.filter_eq_none_iff.2 fun v hv => by cases hv; simp
      · rfl

/-- **Digits denote the number that they are the digits of**, and nothing else denotes a number. -/
theorem readDigits_eq_some_iff {soFar n : Nat} {text : List Char} :
    readDigits 10 soFar text = some n ↔
      (∀ c ∈ text, c.isDigit = true) ∧ n = Nat.ofDigitChars 10 text soFar := by
  induction text generalizing soFar with
  | nil =>
    rw [readDigits, Option.some.injEq, eq_comm]
    exact ⟨fun h => ⟨nofun, h⟩, fun h => h.2⟩
  | cons c text ih =>
    rw [readDigits, List.forall_mem_cons, Nat.ofDigitChars_cons]
    cases hc : c.isDigit with
    | true =>
      rw [digitValue_of_isDigit hc, Option.bind_some, Nat.mul_comm soFar 10, ih]
      exact and_congr_left' ⟨fun h => ⟨rfl, h⟩, fun h => h.2⟩
    | false =>
      rw [digitValue_of_not_isDigit hc]
      simp

theorem readNat_eq_some_iff {n : Nat} {text : List Char} :
    readNat 10 text = some n ↔
      text ≠ [] ∧ (∀ c ∈ text, c.isDigit = true) ∧ n = Nat.ofDigitChars 10 text 0 := by
  unfold readNat
  split
  · rename_i h
    simp [List.isEmpty_iff.1 h]
  · rename_i h
    rw [readDigits_eq_some_iff]
    simp [List.isEmpty_iff.not.1 h]

/-- Digits have no sign. -/
theorem readInt_of_digits {text : List Char} (h : ∀ c ∈ text, c.isDigit = true) :
    readInt 10 text = (readNat 10 text).map Int.ofNat := by
  unfold readInt
  split
  · cases h '-' List.mem_cons_self
  · cases h '+' List.mem_cons_self
  · rfl

/-- A signed numeral is made of digits and a sign. -/
theorem mark_of_mem_readInt {text : List Char} {n : Int} (h : readInt 10 text = some n) {c : Char}
    (hc : c ∈ text) : c.isDigit = true ∨ c = '+' ∨ c = '-' := by
  have hdigits {rest : List Char} (h : readNat 10 rest ≠ none) (hc : c ∈ rest) :
      c.isDigit = true := by
    obtain ⟨k, hk⟩ := Option.ne_none_iff_exists'.1 h
    exact (readNat_eq_some_iff.1 hk).2.1 c hc
  unfold readInt at h
  split at h
  · rcases List.mem_cons.1 hc with rfl | hc
    · exact .inr (.inr rfl)
    · exact .inl (hdigits (fun hnone => by rw [hnone] at h; cases h) hc)
  · rcases List.mem_cons.1 hc with rfl | hc
    · exact .inr (.inl rfl)
    · exact .inl (hdigits (fun hnone => by rw [hnone] at h; cases h) hc)
  · exact .inl (hdigits (fun hnone => by rw [hnone] at h; cases h) hc)

/-- Digits denote no number beyond their count. -/
theorem ofDigitChars_lt {text : List Char} (h : ∀ c ∈ text, c.isDigit = true) :
    Nat.ofDigitChars 10 text 0 < 10 ^ text.length := by
  induction text using List.reverseRecOn with
  | nil => decide
  | append_singleton text c ih =>
    have hc := toNat_le_of_isDigit (h c (by simp))
    have hprefix := ih fun d hd => h d (by simp [hd])
    have hvalue : c.toNat - '0'.toNat ≤ 9 := Nat.sub_le_iff_le_add.2 hc
    rw [Nat.ofDigitChars_append, Nat.ofDigitChars_cons, Nat.ofDigitChars_nil, List.length_append,
      List.length_singleton, Nat.pow_succ]
    omega

/-! ### Numerals of natural numbers -/

theorem decimal_ne_nil (n : Nat) : decimal n ≠ [] := by
  unfold decimal
  split
  · exact List.cons_ne_nil _ _
  · exact List.append_ne_nil_of_right_ne_nil _ (List.cons_ne_nil _ _)

theorem isDigit_of_mem_decimal {n : Nat} {c : Char} (h : c ∈ decimal n) : c.isDigit = true := by
  induction n using decimal.induct with
  | case1 n hn =>
    rw [decimal, if_pos hn, List.mem_singleton] at h
    exact h ▸ isDigit_digitChar hn
  | case2 n hn ih =>
    rw [decimal, if_neg hn, List.mem_append, List.mem_singleton] at h
    rcases h with h | rfl
    · exact ih h
    · exact isDigit_digitChar (Nat.mod_lt _ (by decide))

theorem readDigits_decimal (n : Nat) : readDigits 10 0 (decimal n) = some n := by
  induction n using decimal.induct with
  | case1 n hn =>
    rw [decimal, if_pos hn, readDigits, digitValue_digitChar hn]
    simp [readDigits]
  | case2 n hn ih =>
    rw [decimal, if_neg hn, readDigits_append, ih, Option.bind_some, readDigits,
      digitValue_digitChar (Nat.mod_lt _ (by decide)), Option.bind_some, readDigits,
      Nat.div_add_mod']

/-! ### Numerals with zeros in front -/

variable {width n k : Nat}

theorem padLeft_zero (text : List Char) : padLeft 0 text = text := by
  rw [padLeft, Nat.zero_sub]
  rfl

theorem padLeft_ne_nil (width n : Nat) : padLeft width (decimal n) ≠ [] :=
  List.append_ne_nil_of_right_ne_nil _ (decimal_ne_nil n)

/-- A numeral has digits only. -/
theorem isDigit_of_mem_padLeft {c : Char} (h : c ∈ padLeft width (decimal n)) :
    c.isDigit = true := by
  rcases List.mem_append.1 h with h | h
  · obtain ⟨-, rfl⟩ := List.mem_replicate.1 h
    rfl
  · exact isDigit_of_mem_decimal h

/-- A character other than a digit does not stand in a numeral. -/
theorem not_mem_padLeft {c : Char} (h : c.isDigit = false) : c ∉ padLeft width (decimal n) := by
  intro hc
  rw [isDigit_of_mem_padLeft hc] at h
  cases h

theorem readDigits_zeros (k : Nat) (text : List Char) :
    readDigits 10 0 (List.replicate k '0' ++ text) = readDigits 10 0 text := by
  induction k with
  | zero => rfl
  | succ k ih =>
    rw [List.replicate_succ, List.cons_append, readDigits]
    exact ih

/-- **A numeral denotes its number**, whatever zeros stand in front of it. -/
theorem readNat_padLeft (width n : Nat) : readNat 10 (padLeft width (decimal n)) = some n := by
  rw [readNat, if_neg (by simpa using padLeft_ne_nil width n), padLeft, readDigits_zeros,
    readDigits_decimal]

theorem readNat_decimal (n : Nat) : readNat 10 (decimal n) = some n := by
  rw [← padLeft_zero (decimal n), readNat_padLeft]

/-- A number of so many digits has a numeral that is no longer. -/
theorem length_decimal_le {k : Nat} (hk : 0 < k) (h : n < 10 ^ k) : (decimal n).length ≤ k := by
  induction k generalizing n with
  | zero => cases hk
  | succ k ih =>
    rw [decimal]
    split
    · exact Nat.succ_le_succ (Nat.zero_le k)
    · rename_i hn
      have hk : 0 < k := Nat.pos_of_ne_zero fun hk => by
        rw [hk, Nat.zero_add, Nat.pow_one] at h
        exact hn h
      rw [List.length_append]
      exact Nat.succ_le_succ (ih hk (Nat.div_lt_of_lt_mul (by rwa [Nat.pow_succ'] at h)))

/-- A number of so many digits fills the width. -/
theorem length_padLeft_decimal (hwidth : 0 < width) (h : n < 10 ^ width) :
    (padLeft width (decimal n)).length = width := by
  rw [padLeft, List.length_append, List.length_replicate,
    Nat.sub_add_cancel (length_decimal_le hwidth h)]

/-- A number is told from its numeral. -/
theorem padLeft_inj : padLeft width (decimal n) = padLeft width (decimal k) ↔ n = k := by
  refine ⟨fun h => ?_, fun h => h ▸ rfl⟩
  have hread := congrArg (readNat 10) h
  rw [readNat_padLeft, readNat_padLeft] at hread
  exact Option.some.inj hread

theorem decimal_inj : decimal n = decimal k ↔ n = k := by
  rw [← padLeft_zero (decimal n), ← padLeft_zero (decimal k), padLeft_inj]

theorem natText_injective : Function.Injective natText :=
  fun _ _ h => decimal_inj.1 (String.ofList_injective h)

/-! ### Numerals of integers -/

/-- A text of digits has no sign. -/
theorem readInt_padLeft (width n : Nat) :
    readInt 10 (padLeft width (decimal n)) = some (n : Int) := by
  have hfirst {c : Char} {rest : List Char} (h : padLeft width (decimal n) = c :: rest) :
      c.isDigit = true := isDigit_of_mem_padLeft (h ▸ List.mem_cons_self ..)
  unfold readInt
  split
  · rename_i rest h
    cases hfirst h
  · rename_i rest h
    cases hfirst h
  · rw [readNat_padLeft]
    rfl

/-- The numeral of an integer denotes it. -/
theorem readInt_signedDecimal (n : Int) : readInt 10 (signedDecimal n) = some n := by
  cases n with
  | ofNat n =>
    show readInt 10 (decimal n) = _
    rw [← padLeft_zero (decimal n), readInt_padLeft]
    rfl
  | negSucc n =>
    rw [signedDecimal, readInt, readNat_decimal]
    rfl

/-- Zeros in front of a numeral make no difference to a number of 64 bits. -/
theorem readInt64_padLeft (h : (n : Int) ≤ maxInt64) :
    readInt64 10 (padLeft width (decimal n)) = some (n : Int) := by
  have hlow : minInt64 ≤ (n : Int) := Int.le_trans (by decide) (Int.natCast_nonneg n)
  rw [readInt64, readInt_padLeft, Option.filter_some, if_pos (by simp [hlow, h])]

/-- An integer is told from its numeral. -/
theorem intText_injective : Function.Injective intText := by
  intro m n h
  have hread := congrArg (readInt 10) (String.ofList_injective h)
  rw [readInt_signedDecimal, readInt_signedDecimal] at hread
  exact Option.some.inj hread

/-! ### Hexadecimal numerals -/

/-- The hexadecimal numeral of a number, with the mark `0x` in front. -/
def hexadecimal (n : Nat) : List Char :=
  '0' :: 'x' :: Nat.toDigits 16 n

theorem digitValue_hexDigit {d : Nat} (h : d < 16) : digitValue 16 d.digitChar = some d := by
  revert d
  decide

theorem readDigits_toDigits (n : Nat) : readDigits 16 0 (Nat.toDigits 16 n) = some n := by
  induction n using Nat.strongRecOn with
  | _ n ih =>
    rw [Nat.toDigits_eq_if (by decide)]
    split
    · rename_i hn
      rw [readDigits, digitValue_hexDigit hn]
      simp [readDigits]
    · rename_i hn
      rw [readDigits_append, ih _ (Nat.div_lt_self (by omega) (by decide)), Option.bind_some,
        readDigits, digitValue_hexDigit (Nat.mod_lt _ (by decide)), Option.bind_some, readDigits,
        Nat.div_add_mod']

/-- **A hexadecimal numeral denotes its number.** -/
theorem readNat_toDigits (n : Nat) : readNat 16 (Nat.toDigits 16 n) = some n := by
  rw [readNat, if_neg (by simp), readDigits_toDigits]

theorem exists_of_mem_toDigits {n : Nat} {c : Char} (h : c ∈ Nat.toDigits 16 n) :
    ∃ d < 16, c = d.digitChar := by
  induction n using Nat.strongRecOn with
  | _ n ih =>
    rw [Nat.toDigits_eq_if (by decide)] at h
    split at h
    · rename_i hn
      exact ⟨n, hn, List.mem_singleton.1 h⟩
    · rename_i hn
      rcases List.mem_append.1 h with h | h
      · exact ih _ (Nat.div_lt_self (by omega) (by decide)) h
      · exact ⟨n % 16, Nat.mod_lt _ (by decide), List.mem_singleton.1 h⟩

/-- A hexadecimal digit is an ASCII letter or digit. -/
theorem isAlphanum_of_mem_toDigits {n : Nat} {c : Char} (h : c ∈ Nat.toDigits 16 n) :
    c.isAlphanum = true := by
  have hall : ∀ d < 16, d.digitChar.isAlphanum = true := by decide
  obtain ⟨d, hd, rfl⟩ := exists_of_mem_toDigits h
  exact hall d hd

/-- A hexadecimal numeral has no sign. -/
theorem readInt_toDigits (n : Nat) : readInt 16 (Nat.toDigits 16 n) = some (n : Int) := by
  have hfirst {c : Char} {rest : List Char} (h : Nat.toDigits 16 n = c :: rest) :
      c.isAlphanum = true := isAlphanum_of_mem_toDigits (h ▸ List.mem_cons_self ..)
  unfold readInt
  split
  · rename_i h
    cases hfirst h
  · rename_i h
    cases hfirst h
  · rw [readNat_toDigits]
    rfl

end TypedSheets.Text
