import TypedSheets.Proofs.Casting.Members
import TypedSheets.Proofs.Decimal.Rounding

/-!
# Casting integers

A hexadecimal numeral is cast to its number exactly, or refused. So is a decimal numeral, except
near the limits of 64 bits: a numeral that does not fit 64 bits is read as a floating-point number,
and the first power of two beyond 64 bits stands there for all numbers that are rounded to it. They
are taken for the limit.

## Main definitions

* `IntegerBounds.within?` — the value of an integer within bounds.
* `IntegerBounds.taken` — what the decimal numeral of an integer is taken for.
* `Definitions.CastsOrRefuses` — a text is cast to a value, or refused as none of the type.

## Main results

* `Text.readSigned_signedDecimal`, `Text.readUnsigned_signedDecimal` — what decimal numerals denote
  in cells.
* `Definitions.cast_integers` — which integers are cast exactly or refused.
-/

namespace TypedSheets

/-! ### Reading decimal numerals -/

namespace Text

/-- The signed integer that a decimal numeral is taken for: a limit of 64 bits stands for the
numbers that are rounded to the power of two there. -/
def takenSigned (n : Int) : Int :=
  if maxInt64 < n ∧ n ≤ maxInt64 + 1 + 2 ^ 10 then maxInt64
  else if minInt64 - 2 ^ 10 ≤ n ∧ n < minInt64 then minInt64
  else n

/-- The unsigned integer that a decimal numeral is taken for. -/
def takenUnsigned (n : Int) : Int :=
  if maxNat64 < n ∧ n ≤ maxNat64 + 1 + 2 ^ 11 then maxNat64 else n

/-- The characters of the numeral of an integer are digits, but for the sign of a negative one. -/
theorem isDigit_or_of_mem_signedDecimal {n : Int} {c : Char} (h : c ∈ signedDecimal n) :
    c.isDigit = true ∨ c = '-' := by
  cases n with
  | ofNat k => exact .inl (isDigit_of_mem_decimal h)
  | negSucc k =>
    rcases List.mem_cons.1 h with rfl | h
    · exact .inr rfl
    · exact .inl (isDigit_of_mem_decimal h)

theorem isBlank_of_mem_signedDecimal {n : Int} : ∀ c ∈ signedDecimal n, isBlank c = false := by
  intro c hc
  rcases isDigit_or_of_mem_signedDecimal hc with h | rfl
  · exact isBlank_of_isWordChar (isWordChar_of_isDigit h)
  · decide

theorem stripHexMark_signedDecimal (n : Int) : stripHexMark (signedDecimal n) = none := by
  cases n with
  | ofNat k => exact stripHexMark_digits fun _ => isDigit_of_mem_decimal
  | negSucc k => rfl

/-- A decimal numeral is read as the nearest floating-point number. -/
theorem readWhole_signedDecimal (least greatest n : Int) (hleast : -(2 ^ 64) ≤ least)
    (hgreatest : greatest ≤ 2 ^ 64) :
    readWhole least greatest (signedDecimal n) =
      if least ≤ Double.nearestInt n ∧ Double.nearestInt n ≤ greatest then
        some (Double.nearestInt n)
      else none := by
  have hrange : 2 ^ 64 < 2 ^ Double.topBit := Nat.pow_lt_pow_right Nat.one_lt_two (by decide)
  rw [readWhole, Double.toInt?_read_signedDecimal]
  split
  · rw [Option.filter_some]
    simp only [Bool.and_eq_true, decide_eq_true_eq]
  · rename_i hlarge
    rw [Option.filter_none, if_neg]
    rw [← Double.natAbs_nearestInt] at hlarge
    omega

/-- The signed limits of 64 bits are next to powers of two. -/
theorem nearestInt_of_maxInt64_lt {n : Int} (h : maxInt64 < n) :
    maxInt64 + 1 ≤ Double.nearestInt n ∧
      (Double.nearestInt n ≤ maxInt64 + 1 ↔ n ≤ maxInt64 + 1 + 2 ^ 10) := by
  have hmax : maxInt64 + 1 = 2 ^ 63 := rfl
  obtain ⟨k, rfl⟩ := Int.eq_ofNat_of_zero_le (show 0 ≤ n by omega)
  have hk : 2 ^ 63 ≤ k := by omega
  have hlow := Double.le_nearest hk
  have hiff := Double.nearest_le_iff (k := 63) (by decide) hk
  rw [Double.nearestInt_natCast, hmax]
  omega

theorem nearestInt_of_lt_minInt64 {n : Int} (h : n < minInt64) :
    Double.nearestInt n ≤ minInt64 ∧
      (minInt64 ≤ Double.nearestInt n ↔ minInt64 - 2 ^ 10 ≤ n) := by
  have hmin : minInt64 = -2 ^ 63 := rfl
  obtain ⟨k, hk⟩ := Int.eq_ofNat_of_zero_le (show 0 ≤ -n by omega)
  obtain rfl : n = -(k : Int) := by omega
  have hk : 2 ^ 63 ≤ k := by omega
  have hlow := Double.le_nearest hk
  have hiff := Double.nearest_le_iff (k := 63) (by decide) hk
  rw [Double.nearestInt_neg (by omega), hmin]
  omega

theorem nearestInt_of_maxNat64_lt {n : Int} (h : maxNat64 < n) :
    maxNat64 + 1 ≤ Double.nearestInt n ∧
      (Double.nearestInt n ≤ maxNat64 + 1 ↔ n ≤ maxNat64 + 1 + 2 ^ 11) := by
  have hmax : ((maxNat64 : Nat) : Int) + 1 = 2 ^ 64 := rfl
  obtain ⟨k, rfl⟩ := Int.eq_ofNat_of_zero_le (show 0 ≤ n by omega)
  have hk : 2 ^ 64 ≤ k := by omega
  have hlow := Double.le_nearest hk
  have hiff := Double.nearest_le_iff (k := 64) (by decide) hk
  rw [Double.nearestInt_natCast, hmax]
  omega

/-- The integer that a decimal numeral denotes in the cells of signed types. -/
theorem readSigned_signedDecimal (n : Int) :
    readSigned (signedDecimal n) =
      if minInt64 ≤ takenSigned n ∧ takenSigned n ≤ maxInt64 then some (takenSigned n)
      else none := by
  have hlimits : minInt64 ≤ maxInt64 := by decide
  have hread : readInt64 10 (signedDecimal n) =
      if minInt64 ≤ n ∧ n ≤ maxInt64 then some n else none := by
    rw [readInt64, readInt_signedDecimal, Option.filter_some]
    simp only [Bool.and_eq_true, decide_eq_true_eq]
  have hwhole := readWhole_signedDecimal minInt64 (maxInt64 + 1) n (by decide) (by decide)
  rw [readSigned, trim_of_not_blank isBlank_of_mem_signedDecimal]
  simp only [stripHexMark_signedDecimal, hread, hwhole]
  by_cases hfits : minInt64 ≤ n ∧ n ≤ maxInt64
  · have htaken : takenSigned n = n := by
      rw [takenSigned, if_neg (by omega), if_neg (by omega)]
    rw [htaken, if_pos hfits]
  rw [if_neg hfits]
  dsimp only
  by_cases habove : maxInt64 < n
  · obtain ⟨hle, hiff⟩ := nearestInt_of_maxInt64_lt habove
    by_cases hnear : n ≤ maxInt64 + 1 + 2 ^ 10
    · have htaken : takenSigned n = maxInt64 := if_pos ⟨habove, hnear⟩
      have hvalue : Double.nearestInt n = maxInt64 + 1 := Int.le_antisymm (hiff.2 hnear) hle
      rw [htaken, hvalue, if_pos ⟨by omega, Int.le_refl _⟩, if_pos ⟨hlimits, Int.le_refl _⟩,
        Option.map_some, Int.min_eq_right (by omega)]
    · have htaken : takenSigned n = n := by
        rw [takenSigned, if_neg (by omega), if_neg (by omega)]
      rw [htaken, if_neg hfits, if_neg (fun h => hnear (hiff.1 h.2)), Option.map_none]
  · have hbelow : n < minInt64 := by omega
    obtain ⟨hle, hiff⟩ := nearestInt_of_lt_minInt64 hbelow
    by_cases hnear : minInt64 - 2 ^ 10 ≤ n
    · have htaken : takenSigned n = minInt64 := by
        rw [takenSigned, if_neg (fun h => habove h.1), if_pos ⟨hnear, hbelow⟩]
      have hvalue : Double.nearestInt n = minInt64 := Int.le_antisymm hle (hiff.2 hnear)
      rw [htaken, hvalue, if_pos ⟨Int.le_refl _, by omega⟩, if_pos ⟨Int.le_refl _, hlimits⟩,
        Option.map_some, Int.min_eq_left hlimits]
    · have htaken : takenSigned n = n := by
        rw [takenSigned, if_neg (fun h => habove h.1), if_neg (fun h => hnear h.1)]
      rw [htaken, if_neg hfits, if_neg (fun h => hnear (hiff.1 h.1)), Option.map_none]

/-- A decimal numeral is read as an unsigned number of 64 bits if it has no sign and fits. -/
theorem readNat64_signedDecimal (n : Int) :
    readNat64 10 (signedDecimal n) = if 0 ≤ n ∧ n ≤ maxNat64 then some n.toNat else none := by
  cases n with
  | ofNat k =>
    have hfirst {c : Char} {rest : List Char} (h : decimal k = c :: rest) : c.isDigit = true :=
      isDigit_of_mem_decimal (h ▸ List.mem_cons_self ..)
    have hread : readNat64 10 (decimal k) = (readNat 10 (decimal k)).filter (· ≤ maxNat64) := by
      unfold readNat64
      split
      · rename_i h
        cases hfirst h
      · rfl
    rw [signedDecimal, hread, readNat_decimal, Option.filter_some]
    simp
  | negSucc k =>
    rw [if_neg (fun h => absurd h.1 (Int.not_le.2 (Int.negSucc_lt_zero k)))]
    rfl

/-- The integer that a decimal numeral denotes in the cells of unsigned types. -/
theorem readUnsigned_signedDecimal (n : Int) :
    readUnsigned (signedDecimal n) =
      if 0 ≤ takenUnsigned n ∧ takenUnsigned n ≤ maxNat64 then some (takenUnsigned n).toNat
      else none := by
  have hwhole := readWhole_signedDecimal 0 (maxNat64 + 1) n (by decide) (by decide)
  rw [readUnsigned, trim_of_not_blank isBlank_of_mem_signedDecimal]
  simp only [stripHexMark_signedDecimal, readNat64_signedDecimal, hwhole]
  by_cases hfits : 0 ≤ n ∧ n ≤ maxNat64
  · have htaken : takenUnsigned n = n := if_neg (by omega)
    rw [htaken, if_pos hfits]
  rw [if_neg hfits]
  dsimp only
  by_cases habove : maxNat64 < n
  · obtain ⟨hle, hiff⟩ := nearestInt_of_maxNat64_lt habove
    by_cases hnear : n ≤ maxNat64 + 1 + 2 ^ 11
    · have htaken : takenUnsigned n = maxNat64 := if_pos ⟨habove, hnear⟩
      have hvalue : Double.nearestInt n = maxNat64 + 1 := Int.le_antisymm (hiff.2 hnear) hle
      rw [htaken, hvalue, if_pos ⟨by omega, Int.le_refl _⟩, if_pos ⟨by omega, Int.le_refl _⟩]
      rfl
    · have htaken : takenUnsigned n = n := if_neg fun h => hnear h.2
      rw [htaken, if_neg hfits, if_neg (fun h => hnear (hiff.1 h.2)), Option.map_none]
  · have hbelow : n < 0 := by omega
    have htaken : takenUnsigned n = n := if_neg fun h => habove h.1
    have hneg : Double.nearestInt n < 0 := Double.nearestInt_lt_zero hbelow
    rw [htaken, if_neg hfits, if_neg (by omega), Option.map_none]

/-! ### Reading hexadecimal numerals -/

theorem isBlank_of_mem_hexadecimal {n : Nat} : ∀ c ∈ hexadecimal n, isBlank c = false := by
  have hall : ∀ d < 16, isBlank d.digitChar = false := by decide
  refine List.forall_mem_cons.2 ⟨by decide, List.forall_mem_cons.2 ⟨by decide, fun c hc => ?_⟩⟩
  obtain ⟨d, hd, rfl⟩ := exists_of_mem_toDigits hc
  exact hall d hd

theorem readSigned_hexadecimal (n : Nat) :
    readSigned (hexadecimal n) = if (n : Int) ≤ maxInt64 then some (n : Int) else none := by
  have hlow : minInt64 ≤ n := Int.le_trans (by decide) (Int.natCast_nonneg n)
  rw [readSigned, trim_of_not_blank isBlank_of_mem_hexadecimal]
  show readInt64 16 (Nat.toDigits 16 n) = _
  rw [readInt64, readInt_toDigits, Option.filter_some]
  simp [hlow]

theorem readUnsigned_hexadecimal (n : Nat) :
    readUnsigned (hexadecimal n) = if n ≤ maxNat64 then some n else none := by
  have hread : readNat64 16 (Nat.toDigits 16 n) =
      (readNat 16 (Nat.toDigits 16 n)).filter (· ≤ maxNat64) := by
    unfold readNat64
    split
    · rename_i h
      cases isAlphanum_of_mem_toDigits (c := '+') (h ▸ List.mem_cons_self ..)
    · rfl
  rw [readUnsigned, trim_of_not_blank isBlank_of_mem_hexadecimal]
  show readNat64 16 (Nat.toDigits 16 n) = _
  rw [hread, readNat_toDigits, Option.filter_some]
  simp

end Text

/-! ### Values within bounds -/

namespace IntegerBounds

/-- The value of an integer, if it is within the bounds. -/
def within? : IntegerBounds → Int → Option Value
  | signed least greatest, n => if least ≤ n ∧ n ≤ greatest then some (.int n) else none
  | unsigned greatest, n => if 0 ≤ n ∧ n ≤ greatest then some (.uint n.toNat) else none

/-- The integer that a decimal numeral is taken for. -/
def taken : IntegerBounds → Int → Int
  | signed .., n => Text.takenSigned n
  | unsigned _, n => Text.takenUnsigned n

/-- The integer that a text denotes in a cell. -/
def read : IntegerBounds → List Char → Option Int
  | signed .., text => Text.readSigned text
  | unsigned _, text => (Text.readUnsigned text).map Nat.cast

/-- Bounds that are no wider than 64 bits. -/
def Fits64 : IntegerBounds → Prop
  | signed least greatest => Text.minInt64 ≤ least ∧ greatest ≤ Text.maxInt64
  | unsigned greatest => greatest ≤ Text.maxNat64

theorem fits64_of_bounds? {p : Primitive} {bounds : IntegerBounds} (h : p.bounds? = some bounds) :
    bounds.Fits64 := by
  cases p <;> cases h <;> simp only [Fits64] <;> decide

/-- Bounds that lie apart from the limits of 64 bits. -/
def Narrow : IntegerBounds → Prop
  | signed least greatest => Text.minInt64 < least ∧ greatest < Text.maxInt64
  | unsigned greatest => greatest < Text.maxNat64

theorem narrow_of_bounds? {p : Primitive} {bounds : IntegerBounds} (h : p.bounds? = some bounds)
    (hsigned : p ≠ .int64) (hunsigned : p ≠ .uint64) : bounds.Narrow := by
  cases p with
  | int64 => exact absurd rfl hsigned
  | uint64 => exact absurd rfl hunsigned
  | _ => cases h <;> simp only [Narrow] <;> decide

/-- What a numeral near the limits of 64 bits is taken for is beyond all narrower bounds. -/
theorem within?_taken {bounds : IntegerBounds} (h : bounds.Narrow) (n : Int) :
    bounds.within? (bounds.taken n) = bounds.within? n := by
  cases bounds with
  | signed least greatest =>
    simp only [Narrow] at h
    simp only [taken, within?, Text.takenSigned]
    split
    · rw [if_neg (by omega), if_neg (by omega)]
    · split
      · rw [if_neg (by omega), if_neg (by omega)]
      · rfl
  | unsigned greatest =>
    simp only [Narrow] at h
    simp only [taken, within?, Text.takenUnsigned]
    split
    · rw [if_neg (by omega), if_neg (by omega)]
    · rfl

/-- A decimal numeral has the value of what it is taken for. -/
theorem read_signedDecimal {bounds : IntegerBounds} (h : bounds.Fits64) (n : Int) :
    (bounds.read (Text.signedDecimal n)).bind bounds.within? = bounds.within? (bounds.taken n) := by
  cases bounds with
  | signed least greatest =>
    simp only [Fits64] at h
    simp only [read, taken, Text.readSigned_signedDecimal]
    split
    · rfl
    · rw [Option.bind_none, within?, if_neg (by omega)]
  | unsigned greatest =>
    simp only [Fits64] at h
    simp only [read, taken, Text.readUnsigned_signedDecimal]
    split
    · rename_i hrange
      rw [Option.map_some, Option.bind_some, Int.toNat_of_nonneg hrange.1]
    · rw [Option.map_none, Option.bind_none, within?, if_neg (by omega)]

/-- A hexadecimal numeral has the value of its number. -/
theorem read_hexadecimal {bounds : IntegerBounds} (h : bounds.Fits64) (n : Nat) :
    (bounds.read (Text.hexadecimal n)).bind bounds.within? = bounds.within? n := by
  cases bounds with
  | signed least greatest =>
    simp only [Fits64] at h
    simp only [read, Text.readSigned_hexadecimal]
    split
    · rfl
    · rw [Option.bind_none, within?, if_neg (by omega)]
  | unsigned greatest =>
    simp only [Fits64] at h
    simp only [read, Text.readUnsigned_hexadecimal]
    split
    · rfl
    · rw [Option.map_none, Option.bind_none, within?, if_neg (by omega)]

end IntegerBounds

/-! ### Casting -/

namespace Definitions

open Recall

variable {d : Definitions} {type root text : String} {f : Flags} {p : Primitive}
  {bounds : IntegerBounds}

/-- A text is cast to a value, or refused as none of the type. -/
def CastsOrRefuses (d : Definitions) (type text : String) : Option Value → Prop
  | some v => (d.cast type (.text text)).run.fresh = .ok v
  | none => ∃ root detail,
      (d.cast type (.text text)).run.fresh = .error (castFault text root detail)

/-- A text is cast to one value or refused. -/
theorem CastsOrRefuses.unique {a b : Option Value} (ha : d.CastsOrRefuses type text a)
    (hb : d.CastsOrRefuses type text b) : a = b := by
  cases a with
  | none =>
    obtain ⟨root, detail, ha⟩ := ha
    cases b with
    | none => rfl
    | some v => cases ha.symm.trans hb
  | some v =>
    cases b with
    | none =>
      obtain ⟨root, detail, hb⟩ := hb
      cases Eq.trans (Eq.symm ha) hb
    | some w =>
      cases Eq.trans (Eq.symm ha) hb
      rfl

theorem castInteger_signed (root text : String) (least greatest : Int) :
    castInteger root (.signed least greatest) (.text text) =
      orFault text root "expected an integer" (Text.readSigned text.toList) >>= fun n =>
        if n < least || greatest < n then
          throw (castFault text root
            ("out of range " ++ Text.intText least ++ "..=" ++ Text.intText greatest))
        else pure (.int n) :=
  rfl

theorem castInteger_unsigned (root text : String) (greatest : Nat) :
    castInteger root (.unsigned greatest) (.text text) =
      match Text.readUnsigned text.toList with
      | some n =>
        if greatest < n then
          throw (castFault text root ("out of range 0..=" ++ Text.natText greatest))
        else pure (.uint n)
      | none =>
        if (Text.readSigned text.toList).any (· < 0) then
          throw (castFault text root ("out of range 0..=" ++ Text.natText greatest))
        else throw (castFault text root "expected an integer") :=
  rfl

/-- A text has the value within bounds that it denotes; without one it is refused. -/
theorem fresh_castInteger (root text : String) (bounds : IntegerBounds) :
    match (bounds.read text.toList).bind bounds.within? with
    | some v => (castInteger root bounds (.text text)).run.fresh = .ok v
    | none => ∃ detail, (castInteger root bounds (.text text)).run.fresh =
        .error (castFault text root detail) := by
  cases bounds with
  | signed least greatest =>
    rw [castInteger_signed, IntegerBounds.read]
    cases Text.readSigned text.toList with
    | none => exact ⟨_, rfl⟩
    | some n =>
      rw [Option.bind_some, IntegerBounds.within?, orFault, pure_bind]
      by_cases hn : least ≤ n ∧ n ≤ greatest
      · rw [if_pos hn, if_neg (by simp; omega)]
        rfl
      · rw [if_neg hn, if_pos (by simp; omega)]
        exact ⟨_, rfl⟩
  | unsigned greatest =>
    rw [castInteger_unsigned, IntegerBounds.read]
    cases Text.readUnsigned text.toList with
    | none =>
      rw [Option.map_none, Option.bind_none]
      dsimp only
      split
      · exact ⟨_, rfl⟩
      · exact ⟨_, rfl⟩
    | some n =>
      rw [Option.map_some, Option.bind_some, IntegerBounds.within?]
      dsimp only
      by_cases hn : greatest < n
      · rw [if_neg (by omega), if_pos hn]
        exact ⟨_, rfl⟩
      · rw [if_pos (by omega), if_neg hn]
        rfl

/-- An integer type casts a text to the value within its bounds that the text denotes. -/
theorem castsOrRefuses_read (h : d.StoredAs type (.primitive f p)) (hp : p.bounds? = some bounds)
    (hnormal : (Cell.text text).normalize = .text text) (hnull : (Cell.text text).isNull = false)
    (hconst : (Cell.text text).constRef? = none) :
    d.CastsOrRefuses type text ((bounds.read text.toList).bind bounds.within?) := by
  obtain ⟨root, hroot, hparse⟩ := h
  have hstring : ∀ f', TypeExpr.primitive f p ≠ .primitive f' .string := by
    rintro f' ⟨⟩
    cases hp
  obtain ⟨depth, hcast⟩ := fresh_cast_text hroot hparse hstring hnormal hconst
  have hinteger : d.castRoot (d.castFrom depth []) root (.primitive f p) (.text text) =
      castInteger root bounds (.text text) := by
    cases p <;> cases hp <;>
    · show (if (Cell.text text).isNull then _ else _) = _
      rw [hnull]
      rfl
  rw [hinteger] at hcast
  have hfresh := fresh_castInteger root text bounds
  cases hvalue : (bounds.read text.toList).bind bounds.within? with
  | some v =>
    rw [hvalue] at hfresh
    exact hcast.trans hfresh
  | none =>
    rw [hvalue] at hfresh
    obtain ⟨detail, hdetail⟩ := hfresh
    exact ⟨root, detail, hcast.trans hdetail⟩

/-- The numeral of an integer is a cell that is not empty and refers to no constant. -/
theorem settled_intText (n : Int) :
    (Cell.text (Text.intText n)).normalize = .text (Text.intText n) ∧
      (Cell.text (Text.intText n)).isNull = false ∧
      (Cell.text (Text.intText n)).constRef? = none := by
  have hne : Text.signedDecimal n ≠ [] := by
    cases n with
    | ofNat k => exact Text.decimal_ne_nil k
    | negSucc k => exact List.cons_ne_nil _ _
  obtain ⟨c, rest, htext⟩ := List.exists_cons_of_ne_nil hne
  have hfirst : c.isDigit = true ∨ c = '-' :=
    Text.isDigit_or_of_mem_signedDecimal (htext ▸ List.mem_cons_self ..)
  have hnot {e : Char} (he : e.isDigit = false ∧ e ≠ '-') : c ≠ e := by
    rintro rfl
    rcases hfirst with h | h
    · cases h.symm.trans he.1
    · exact he.2 h
  rw [Text.intText, htext]
  exact Cell.settled (htext ▸ Text.isBlank_of_mem_signedDecimal) (hnot (by decide))
    (hnot (by decide))

/-- A decimal numeral is cast or refused as what it is taken for. -/
theorem castsOrRefuses_decimal (h : d.StoredAs type (.primitive f p))
    (hp : p.bounds? = some bounds) (n : Int) :
    d.CastsOrRefuses type (Text.intText n) (bounds.within? (bounds.taken n)) := by
  obtain ⟨hnormal, hnull, hconst⟩ := settled_intText n
  have := castsOrRefuses_read h hp hnormal hnull hconst
  rwa [Text.intText, String.toList_ofList,
    IntegerBounds.read_signedDecimal (IntegerBounds.fits64_of_bounds? hp)] at this

/-- A hexadecimal numeral is cast or refused as its number. -/
theorem castsOrRefuses_hexadecimal (h : d.StoredAs type (.primitive f p))
    (hp : p.bounds? = some bounds) (n : Nat) :
    d.CastsOrRefuses type (String.ofList (Text.hexadecimal n)) (bounds.within? n) := by
  have hblank : ∀ c ∈ '0' :: 'x' :: Nat.toDigits 16 n, Text.isBlank c = false :=
    Text.isBlank_of_mem_hexadecimal
  obtain ⟨hnormal, hnull, hconst⟩ := Cell.settled hblank (by decide) (by decide)
  have := castsOrRefuses_read h hp hnormal hnull hconst
  rwa [String.toList_ofList, ← Text.hexadecimal,
    IntegerBounds.read_hexadecimal (IntegerBounds.fits64_of_bounds? hp)] at this

/-- A type without parts is stored as itself. -/
theorem storedAs_name (d : Definitions) (p : Primitive) :
    d.StoredAs p.name (.primitive {} p) := by
  have htext : (TypeExpr.primitive {} p).text = p.name := by cases p <;> decide
  rw [← htext]
  exact d.storedAs_plain (e := .primitive {} p) rfl rfl Bool.false_ne_true

/-- **Which integers are cast exactly.** Under a type that is stored as an integer type, a
hexadecimal numeral is cast to its number if that is within the bounds of the type, and refused
otherwise. A decimal numeral is cast, or refused, as what it is taken for; for all integers that is
the number itself if and only if the type does not have 64 bits. -/
theorem cast_integers (h : d.StoredAs type (.primitive f p)) (hp : p.bounds? = some bounds) :
    (∀ n : Nat, d.CastsOrRefuses type (String.ofList (Text.hexadecimal n)) (bounds.within? n)) ∧
    (∀ n : Int, d.CastsOrRefuses type (Text.intText n) (bounds.within? (bounds.taken n))) ∧
    ((∀ n : Int, d.CastsOrRefuses type (Text.intText n) (bounds.within? n)) ↔
      p ≠ .int64 ∧ p ≠ .uint64) := by
  refine ⟨castsOrRefuses_hexadecimal h hp, castsOrRefuses_decimal h hp, fun hexact => ?_,
    fun hwide n => ?_⟩
  · -- The least integer beyond the limit is taken for the limit.
    constructor
    · rintro rfl
      cases hp
      have hsame := (castsOrRefuses_decimal h rfl (Text.maxInt64 + 1)).unique (hexact _)
      exact absurd (congrArg Option.isSome hsame) (by decide)
    · rintro rfl
      cases hp
      have hsame := (castsOrRefuses_decimal h rfl (Text.maxNat64 + 1)).unique (hexact _)
      exact absurd (congrArg Option.isSome hsame) (by decide)
  · rw [← IntegerBounds.within?_taken (IntegerBounds.narrow_of_bounds? hp hwide.1 hwide.2)]
    exact castsOrRefuses_decimal h hp n

/-- Six kinds of integers are told at their limits from the numbers beyond, and a `short` may be
written in hexadecimal digits. -/
theorem shorts_cast :
    let short : IntegerBounds := .signed (-32768) 32767
    ({} : Definitions).StoredAs "short" (.primitive {} .int16) ∧
      Primitive.int16.bounds? = some short ∧
      (∀ n : Nat, ({} : Definitions).CastsOrRefuses "short" (String.ofList (Text.hexadecimal n))
        (short.within? n)) ∧
      ∀ n : Int, ({} : Definitions).CastsOrRefuses "short" (Text.intText n) (short.within? n) := by
  intro short
  have hstored := storedAs_name {} .int16
  obtain ⟨hhex, -, hiff⟩ := cast_integers hstored rfl
  exact ⟨hstored, rfl, hhex, hiff.2 ⟨by decide, by decide⟩⟩

/-- The least number beyond 64 bits is cast to the greatest number of 64 bits. -/
theorem long_beyond :
    (({} : Definitions).cast "long" (.text (Text.intText 9223372036854775808))).run.fresh =
      .ok (.int 9223372036854775807) ∧
    ¬ ({} : Definitions).CastsOrRefuses "long" (Text.intText 9223372036854775808)
      ((IntegerBounds.signed (-9223372036854775808) 9223372036854775807).within?
        9223372036854775808) := by
  have hcast : ({} : Definitions).CastsOrRefuses "long" (Text.intText 9223372036854775808)
      (some (.int 9223372036854775807)) :=
    castsOrRefuses_decimal (storedAs_name {} .int64) rfl 9223372036854775808
  refine ⟨hcast, fun hexact => ?_⟩
  exact absurd (congrArg Option.isSome (hcast.unique hexact)) (by decide)

end Definitions

end TypedSheets
