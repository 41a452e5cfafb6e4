import Mathlib.Algebra.Order.Ring.Nat
import Mathlib.Data.List.TakeWhile
import TypedSheets.Decimal.Double
import TypedSheets.Proofs.Text.Numerals

/-!
# Natural numbers as floating-point numbers

A natural number below `2 ^ 53` is a floating-point number. A greater one is rounded to a multiple
of a power of two, so that a power of two stands for all numbers up to half a step beyond it.

## Main definitions

* `Double.nearest` — the natural number that a natural number is rounded to.

## Main results

* `Double.roundToEven_le_iff` — how far an even number is rounded down to.
* `Double.toInt?_ofDecimal` — a numeral without point and exponent has the nearest value.
* `Double.nearest_le_iff` — the numbers that are rounded to a power of two.
-/

namespace TypedSheets.Double

/-! ### Rounding a quotient -/

section Quotients

variable {num den q : Nat}

theorem div_le_roundToEven (num den : Nat) : num / den ≤ roundToEven num den := by
  unfold roundToEven
  dsimp only
  split
  · exact Nat.le_succ _
  · exact Nat.le_refl _

theorem roundToEven_le_succ (num den : Nat) : roundToEven num den ≤ num / den + 1 := by
  unfold roundToEven
  dsimp only
  split
  · exact Nat.le_refl _
  · exact Nat.le_succ _

theorem roundToEven_one (n : Nat) : roundToEven n 1 = n := by
  simp [roundToEven, Nat.mod_one]

/-- A quotient is rounded to an even number or below it as long as it is at most half beyond. -/
theorem roundToEven_le_iff (hden : 0 < den) (hq : q % 2 = 0) :
    roundToEven num den ≤ q ↔ 2 * num ≤ (2 * q + 1) * den := by
  have hnum : den * (num / den) + num % den = num := Nat.div_add_mod num den
  have hrest : num % den < den := Nat.mod_lt num hden
  rcases Nat.lt_trichotomy (num / den) q with hlt | heq | hgt
  · refine iff_of_true (Nat.le_trans (roundToEven_le_succ num den) hlt) ?_
    have hstep : den * (num / den + 1) ≤ den * q := Nat.mul_le_mul_left den hlt
    rw [Nat.mul_add, Nat.mul_one] at hstep
    rw [Nat.add_mul, Nat.one_mul, Nat.mul_assoc, Nat.mul_comm q]
    omega
  · have hround : roundToEven num den ≤ q ↔ 2 * (num % den) ≤ den := by
      unfold roundToEven
      dsimp only
      rw [heq, hq]
      split
      · rename_i h
        simp at h
        omega
      · rename_i h
        simp at h
        omega
    rw [hround, Nat.add_mul, Nat.one_mul, Nat.mul_assoc, Nat.mul_comm q, ← heq]
    omega
  · refine iff_of_false (Nat.not_le.2 (Nat.lt_of_lt_of_le hgt (div_le_roundToEven num den))) ?_
    have hstep : den * (q + 1) ≤ den * (num / den) := Nat.mul_le_mul_left den hgt
    rw [Nat.mul_add, Nat.mul_one] at hstep
    rw [Nat.add_mul, Nat.one_mul, Nat.mul_assoc, Nat.mul_comm q]
    omega

end Quotients

/-! ### Natural numbers -/

variable {n k : Nat}

/-- The natural number that a natural number is rounded to: a multiple of the least power of two
that leaves 53 bits. -/
def nearest (n : Nat) : Nat :=
  roundToEven n (2 ^ (n.log2 - 52)) * 2 ^ (n.log2 - 52)

theorem nearest_of_lt (h : n < 2 ^ 53) : nearest n = n := by
  have hlog : n.log2 - 52 = 0 := by
    rcases Nat.eq_zero_or_pos n with rfl | hn
    · rfl
    · have := (Nat.log2_lt hn.ne').2 h
      omega
  rw [nearest, hlog, Nat.pow_zero, Nat.mul_one, roundToEven_one]

/-- Rounding does not lead below a power of two. -/
theorem le_nearest (h : 2 ^ k ≤ n) : 2 ^ k ≤ nearest n := by
  have hn : n ≠ 0 := (Nat.lt_of_lt_of_le (Nat.two_pow_pos k) h).ne'
  rcases Nat.lt_or_ge n (2 ^ 53) with hsmall | hlarge
  · rwa [nearest_of_lt hsmall]
  · have hlog : 53 ≤ n.log2 := (Nat.le_log2 hn).2 hlarge
    have hquotient : 2 ^ 52 ≤ n / 2 ^ (n.log2 - 52) := by
      rw [Nat.le_div_iff_mul_le (Nat.two_pow_pos _), ← Nat.pow_add,
        Nat.add_sub_cancel' (by omega)]
      exact Nat.log2_self_le hn
    calc 2 ^ k ≤ 2 ^ n.log2 := Nat.pow_le_pow_right Nat.two_pos ((Nat.le_log2 hn).2 h)
      _ = 2 ^ 52 * 2 ^ (n.log2 - 52) := by rw [← Nat.pow_add, Nat.add_sub_cancel' (by omega)]
      _ ≤ nearest n :=
        Nat.mul_le_mul_right _ (Nat.le_trans hquotient (div_le_roundToEven n _))

/-- A natural number is rounded to a power of two if and only if it is at most half a step beyond
it. -/
theorem nearest_le_iff (hk : 53 ≤ k) (h : 2 ^ k ≤ n) :
    nearest n ≤ 2 ^ k ↔ n ≤ 2 ^ k + 2 ^ (k - 53) := by
  have hn : n ≠ 0 := (Nat.lt_of_lt_of_le (Nat.two_pow_pos k) h).ne'
  have hstep : 2 ^ (k - 53) < 2 ^ k := Nat.pow_lt_pow_right Nat.one_lt_two (by omega)
  rcases Nat.lt_or_ge n (2 ^ (k + 1)) with hbelow | hbeyond
  · have hlog : n.log2 = k := (Nat.log2_eq_iff hn).2 ⟨h, hbelow⟩
    have hpow : 2 ^ k = 2 ^ 52 * 2 ^ (k - 52) := by
      rw [← Nat.pow_add, Nat.add_sub_cancel' (by omega)]
    have hhalf : 2 ^ (k - 52) = 2 * 2 ^ (k - 53) := by
      rw [← Nat.pow_succ', show (k - 53).succ = k - 52 by omega]
    rw [nearest, hlog, hpow, Nat.mul_le_mul_right_iff (Nat.two_pow_pos _),
      roundToEven_le_iff (Nat.two_pow_pos _) (by decide), hhalf]
    omega
  · refine iff_of_false (Nat.not_le.2 (Nat.lt_of_lt_of_le ?_ (le_nearest hbeyond))) ?_
    · exact Nat.pow_lt_pow_right Nat.one_lt_two (Nat.lt_succ_self k)
    · rw [Nat.pow_succ] at hbeyond
      omega

/-! ### Reading natural numbers -/

/-- A number that is equal to a natural number or its negative. -/
theorem toInt?_finite {negative : Bool} {m v : Nat} {e : Int}
    (h : m * 2 ^ e.toNat = v * 2 ^ (-e).toNat) :
    toInt? (finite negative m e) = some (if negative then -(v : Int) else v) := by
  have hratio : ratio m e = (v * 2 ^ (-e).toNat, 2 ^ (-e).toNat) := by
    unfold ratio
    split
    · rw [← h, show (-e).toNat = 0 by omega]
      rfl
    · rw [← h, show e.toNat = 0 by omega, Nat.pow_zero, Nat.mul_one]
      rfl
  simp only [toInt?, hratio, Nat.mul_mod_left, Nat.mul_div_cancel v (Nat.two_pow_pos _), if_true]

/-- The quotient that a significand is rounded from has 53 bits. -/
theorem scaleBy_log2 (n : Nat) :
    scaleBy n 1 ((n.log2 : Int) - 52) = (n * 2 ^ (52 - n.log2), 2 ^ (n.log2 - 52)) := by
  have hpow (k : Nat) : Nat.pow 2 k = 2 ^ k := rfl
  have hneg : (-((n.log2 : Int) - 52)).toNat = 52 - n.log2 := by omega
  have hpos : ((n.log2 : Int) - 52).toNat = n.log2 - 52 := by omega
  rw [scaleBy, hpow, hpow, hneg, hpos]
  split
  · rw [show 52 - n.log2 = 0 by omega, Nat.pow_zero, Nat.mul_one, Nat.one_mul]
  · rw [show n.log2 - 52 = 0 by omega, Nat.pow_zero]

/-- That quotient has at least 53 bits. -/
theorem scaleBy_low (h : n ≠ 0) : 2 ^ 52 * 2 ^ (n.log2 - 52) ≤ n * 2 ^ (52 - n.log2) := by
  have hsum : 52 + (n.log2 - 52) = n.log2 + (52 - n.log2) := by omega
  rw [← Nat.pow_add, hsum, Nat.pow_add]
  exact Nat.mul_le_mul_right _ (Nat.log2_self_le h)

/-- That quotient has at most 53 bits. -/
theorem scaleBy_high (n : Nat) : n * 2 ^ (52 - n.log2) < 2 ^ 53 * 2 ^ (n.log2 - 52) := by
  have hsum : 53 + (n.log2 - 52) = n.log2 + 1 + (52 - n.log2) := by omega
  rw [← Nat.pow_add, hsum, Nat.pow_add]
  exact Nat.mul_lt_mul_of_pos_right Nat.lt_log2_self (Nat.two_pow_pos _)

theorem exponentFor_nat (h : n ≠ 0) : exponentFor n 1 = (n.log2 : Int) - 52 := by
  have hbits : 2 ^ (n.log2 - 52) * Nat.pow 2 52 ≤ n * 2 ^ (52 - n.log2) := by
    rw [Nat.mul_comm]
    exact scaleBy_low h
  have hone : (Nat.log2 1 : Int) = 0 := rfl
  simp only [exponentFor, hone, Int.sub_zero, scaleBy_log2, if_neg (Nat.not_lt.2 hbits),
    minExponent]
  omega

/-- A natural number is rounded to a significand, which is carried if it gets too long. -/
theorem ofRatio_eq (negative : Bool) (h : n ≠ 0) :
    ofRatio negative n 1 =
      let m := roundToEven (n * 2 ^ (52 - n.log2)) (2 ^ (n.log2 - 52))
      let (m, e) := if m = 2 ^ 53 then (2 ^ 52, (n.log2 : Int) - 52 + 1) else (m, n.log2 - 52)
      if maxExponent < e then infinite negative else finite negative m e := by
  rw [ofRatio, if_neg h, exponentFor_nat h]
  dsimp only
  rw [scaleBy_log2]
  rfl

/-- What a natural number is read as: a significand of 53 bits, and the exponent that makes it the
nearest number. -/
theorem ofRatio_nat (negative : Bool) (h : n ≠ 0) :
    ∃ m : Nat, ∃ e : Int, m * 2 ^ e.toNat = nearest n * 2 ^ (-e).toNat ∧
      2 ^ 52 ≤ m ∧ m < 2 ^ 53 ∧
      ofRatio negative n 1 =
        if maxExponent < e then infinite negative else finite negative m e := by
  rw [ofRatio_eq negative h]
  generalize hm : roundToEven (n * 2 ^ (52 - n.log2)) (2 ^ (n.log2 - 52)) = m
  have hvalue : m * 2 ^ (n.log2 - 52) = nearest n * 2 ^ (52 - n.log2) := by
    rcases Nat.le_total n.log2 52 with hle | hle
    · have hlt : n < 2 ^ 53 := (Nat.log2_lt h).1 (by omega)
      rw [nearest_of_lt hlt, ← hm, Nat.sub_eq_zero_of_le hle, Nat.pow_zero, Nat.mul_one,
        roundToEven_one]
    · rw [nearest, ← hm, Nat.sub_eq_zero_of_le hle, Nat.pow_zero, Nat.mul_one, Nat.mul_one]
  have hlow : 2 ^ 52 ≤ m := by
    rw [← hm]
    refine Nat.le_trans ?_ (div_le_roundToEven _ _)
    exact (Nat.le_div_iff_mul_le (Nat.two_pow_pos _)).2 (scaleBy_low h)
  have hhigh : m ≤ 2 ^ 53 := by
    rw [← hm]
    refine Nat.le_trans (roundToEven_le_succ _ _) ?_
    exact (Nat.div_lt_iff_lt_mul (Nat.two_pow_pos _)).2 (scaleBy_high n)
  have hpos : ((n.log2 : Int) - 52).toNat = n.log2 - 52 := by omega
  have hneg : (-((n.log2 : Int) - 52)).toNat = 52 - n.log2 := by omega
  by_cases hcarry : m = 2 ^ 53
  · -- The significand is carried to the next bit.
    refine ⟨2 ^ 52, (n.log2 : Int) - 52 + 1, ?_, Nat.le_refl _, by decide, ?_⟩
    swap
    · dsimp only
      rw [if_pos hcarry]
    rw [hcarry] at hvalue
    rcases Nat.lt_or_ge n.log2 52 with hlt | hge
    · obtain ⟨j, hj⟩ : ∃ j, 52 - n.log2 = j + 1 := ⟨51 - n.log2, by omega⟩
      rw [show n.log2 - 52 = 0 by omega, hj, pow_succ 2 j, ← Nat.mul_assoc] at hvalue
      rw [show ((n.log2 : Int) - 52 + 1).toNat = 0 by omega,
        show (-((n.log2 : Int) - 52 + 1)).toNat = j by omega]
      omega
    · rw [show 52 - n.log2 = 0 by omega, Nat.pow_zero, Nat.mul_one] at hvalue
      rw [show ((n.log2 : Int) - 52 + 1).toNat = n.log2 - 52 + 1 by omega,
        show (-((n.log2 : Int) - 52 + 1)).toNat = 0 by omega, Nat.pow_zero, Nat.mul_one,
        ← hvalue, Nat.pow_succ]
      omega
  · refine ⟨m, (n.log2 : Int) - 52, ?_, hlow, Nat.lt_of_le_of_ne hhigh hcarry, ?_⟩
    · rw [hpos, hneg, hvalue]
    · dsimp only
      rw [if_neg hcarry]

/-- The numbers of the format are less than `2 ^ topBit`. -/
def topBit : Nat := 1024

/-- A number with a significand of 53 bits is within the range of the format by its exponent. -/
theorem lt_two_pow_iff {m v : Nat} {e : Int} (h : m * 2 ^ e.toNat = v * 2 ^ (-e).toNat)
    (hlow : 2 ^ 52 ≤ m) (hhigh : m < 2 ^ 53) : v < 2 ^ topBit ↔ ¬ maxExponent < e := by
  have hvalue (he : 0 ≤ e) : v = m * 2 ^ e.toNat := by
    rw [h, show (-e).toNat = 0 by omega, Nat.pow_zero, Nat.mul_one]
  have htop : topBit = 1024 := rfl
  have hmax : maxExponent = 971 := rfl
  rw [hmax]
  constructor
  · intro hv he
    refine Nat.not_lt.2 ?_ hv
    calc 2 ^ topBit ≤ 2 ^ (52 + e.toNat) := Nat.pow_le_pow_right Nat.two_pos (by omega)
      _ = 2 ^ 52 * 2 ^ e.toNat := Nat.pow_add ..
      _ ≤ m * 2 ^ e.toNat := Nat.mul_le_mul_right _ hlow
      _ = v := (hvalue (by omega)).symm
  · intro he
    rcases Int.le_total 0 e with hpos | hneg
    · calc v = m * 2 ^ e.toNat := hvalue hpos
        _ < 2 ^ 53 * 2 ^ e.toNat := Nat.mul_lt_mul_of_pos_right hhigh (Nat.two_pow_pos _)
        _ = 2 ^ (53 + e.toNat) := (Nat.pow_add ..).symm
        _ ≤ 2 ^ topBit := Nat.pow_le_pow_right Nat.two_pos (by omega)
    · calc v ≤ v * 2 ^ (-e).toNat := Nat.le_mul_of_pos_right v (Nat.two_pow_pos _)
        _ = m := by rw [← h, show e.toNat = 0 by omega, Nat.pow_zero, Nat.mul_one]
        _ < 2 ^ 53 := hhigh
        _ ≤ 2 ^ topBit := Nat.pow_le_pow_right Nat.two_pos (by omega)

/-- A natural number is read as the nearest one, if there is a number of that size. -/
theorem toInt?_ofRatio (negative : Bool) (n : Nat) :
    toInt? (ofRatio negative n 1) =
      if nearest n < 2 ^ topBit then some (if negative then -(nearest n : Int) else nearest n)
      else none := by
  by_cases hn : n = 0
  · subst hn
    rw [nearest_of_lt (by decide), if_pos (Nat.two_pow_pos _)]
    exact toInt?_finite (by simp)
  obtain ⟨m, e, hvalue, hlow, hhigh, hread⟩ := ofRatio_nat negative hn
  have hrange := lt_two_pow_iff hvalue hlow hhigh
  rw [hread]
  split
  · rename_i he
    rw [if_neg (fun h => hrange.1 h he)]
    rfl
  · rename_i he
    rw [if_pos (hrange.2 he), toInt?_finite hvalue]

/-- No numeral of a number within the range of the format is taken to be too long for it. -/
theorem ofDecimal_zero (negative : Bool) (n : Nat) :
    ofDecimal negative n 0 = ofRatio negative n 1 := by
  unfold ofDecimal
  dsimp only
  split_ifs with hn hlong hsmall
  · rw [ofRatio, if_pos hn]
  · obtain ⟨m, e, hvalue, hlow, hhigh, hread⟩ := ofRatio_nat negative hn
    have hlarge : 2 ^ topBit ≤ nearest n :=
      le_nearest ((Nat.le_log2 hn).1 (by unfold topBit; omega))
    rw [hread, if_pos]
    exact not_not.1 fun he => Nat.not_lt.2 hlarge ((lt_two_pow_iff hvalue hlow hhigh).2 he)
  · omega
  · rw [Int.toNat_zero]
    show ofRatio negative (n * 1) 1 = _
    rw [Nat.mul_one]
  · omega

/-! ### Reading numerals of integers -/

/-- The integer that an integer is rounded to. -/
def nearestInt (n : Int) : Int :=
  if n < 0 then -(nearest n.natAbs : Int) else nearest n.natAbs

/-- Digits are read as the nearest number. -/
theorem readUnsigned_decimal (negative : Bool) (n : Nat) :
    readUnsigned negative (Text.decimal n) = some (ofRatio negative n 1) := by
  have hall : ∀ c ∈ Text.decimal n, c.isDigit = true := fun _ => Text.isDigit_of_mem_decimal
  have hlower : (Text.decimal n).map Char.toLower = Text.decimal n :=
    (List.map_congr_left (g := id) fun c hc => Text.toLower_of_isDigit (hall c hc)).trans
      (List.map_id _)
  have hword (word : String) (c : Char) (hc : c ∈ word.toList) (hdigit : c.isDigit = false) :
      String.ofList ((Text.decimal n).map Char.toLower) ≠ word := by
    rintro rfl
    rw [hlower, String.toList_ofList] at hc
    cases (hall c hc).symm.trans hdigit
  have hspan : spanDigits (Text.decimal n) = (Text.decimal n, []) :=
    Prod.ext (List.takeWhile_eq_self_iff.2 hall) (List.dropWhile_eq_nil_iff.2 hall)
  have hne : (Text.decimal n).isEmpty = false := by simpa using Text.decimal_ne_nil n
  unfold readUnsigned
  dsimp only
  simp only [hword "inf" 'i' (by decide) (by decide), hword "infinity" 'i' (by decide) (by decide),
    hword "nan" 'n' (by decide) (by decide), hspan, hne, decide_false,
    Bool.or_self, Bool.false_and, Bool.false_eq_true, if_false, readExponent, List.append_nil,
    Text.readDigits_decimal]
  show some (ofDecimal negative n 0) = _
  rw [ofDecimal_zero]

/-- The numeral of an integer is read as the nearest one, if there is a number of that size. -/
theorem toInt?_read_signedDecimal (n : Int) :
    (read (Text.signedDecimal n)).bind toInt? =
      if nearest n.natAbs < 2 ^ topBit then some (nearestInt n) else none := by
  have hread : read (Text.signedDecimal n) = some (ofRatio (decide (n < 0)) n.natAbs 1) := by
    cases n with
    | ofNat k =>
      have hfirst {c : Char} {rest : List Char} (h : Text.decimal k = c :: rest) :
          c.isDigit = true := Text.isDigit_of_mem_decimal (h ▸ List.mem_cons_self ..)
      have hsign : decide (Int.ofNat k < 0) = false :=
        decide_eq_false (Int.not_lt.2 (Int.natCast_nonneg k))
      rw [hsign]
      show read (Text.decimal k) = some (ofRatio false k 1)
      unfold read
      split
      · rename_i h
        cases hfirst h
      · rename_i h
        cases hfirst h
      · exact readUnsigned_decimal false k
    | negSucc k =>
      rw [Text.signedDecimal, read, readUnsigned_decimal, decide_eq_true (Int.negSucc_lt_zero k)]
      rfl
  rw [hread, Option.bind_some, toInt?_ofRatio, nearestInt]
  simp only [decide_eq_true_eq]

theorem natAbs_nearestInt (n : Int) : (nearestInt n).natAbs = nearest n.natAbs := by
  unfold nearestInt
  split <;> omega

theorem nearestInt_natCast (n : Nat) : nearestInt n = nearest n := by
  rw [nearestInt, if_neg (Int.not_lt.2 (Int.natCast_nonneg n)), Int.natAbs_natCast]

theorem nearestInt_neg {n : Nat} (h : 0 < n) : nearestInt (-(n : Int)) = -(nearest n : Int) := by
  rw [nearestInt, if_pos (by omega), Int.natAbs_neg, Int.natAbs_natCast]

/-- Rounding keeps a sign. -/
theorem nearestInt_lt_zero {n : Int} (h : n < 0) : nearestInt n < 0 := by
  have hpos : 2 ^ 0 ≤ nearest n.natAbs := le_nearest (by omega)
  rw [nearestInt, if_pos h]
  omega

end TypedSheets.Double
