import TypedSheets.Proofs.Moment.Texts
import TypedSheets.Proofs.Text.Words

/-!
# Spans are read from their texts

The text of a span leaves out days if there are none, and the fraction of a second if there is none.
So the point in a text may stand behind the days or behind the seconds; the reader tells the two
apart by the colons before it. What is read is the span down to units of 100 nanoseconds, rounded
toward zero, and no sum of its parts leaves the bounds.

## Main definitions

* `Duration.ofNat` — the span of a length.
* `Duration.fieldNanos` — the nanoseconds of days, a clock time and units of 100 nanoseconds.

## Main results

* `Duration.sumFields_eq` — fields whose sum is a span are summed without overflow.
* `Duration.readMagnitude_lengthText` — the text of a length is read as the length in whole units.
* `Duration.reads_text` — a span is read from its text, rounded toward zero to whole units.
-/

namespace TypedSheets.Duration

/-! ### Sums of fields -/

/-- The span of a length. -/
def ofNat (n : Nat) (h : (n : Int) ≤ maxDurationNanos) : Duration where
  nanos := n
  lower := Int.le_trans (by decide) (Int.natCast_nonneg n)
  upper := h

theorem ofNanos?_natCast {n : Nat} (h : (n : Int) ≤ maxDurationNanos) :
    ofNanos? n = some (ofNat n h) :=
  dif_pos ⟨(ofNat n h).lower, h⟩

theorem ofSeconds?_natCast (n : Nat) :
    ofSeconds? n = ofNanos? ((n * nanosPerSecond : Nat) : Int) := by
  rw [ofSeconds?, Int.natCast_mul]

/-- A length is added without overflow if the sum is a span. -/
theorem plus_ofNat {n k : Nat} (h : ((n + k : Nat) : Int) ≤ maxDurationNanos) :
    plus (ofNat n (by omega)) (ofNanos? k) = .ok (some (ofNat (n + k) h)) := by
  have hk : (k : Int) ≤ maxDurationNanos := by omega
  have hsum : (ofNat n (by omega)).add? (ofNat k hk) = some (ofNat (n + k) h) := by
    rw [add?, ← ofNanos?_natCast h, Int.natCast_add]
    rfl
  rw [ofNanos?_natCast hk]
  unfold plus
  dsimp only
  rw [hsum]

/-- Seconds are added without overflow if the sum is a span. -/
theorem plus_ofSeconds {n k : Nat} (h : ((n + k * nanosPerSecond : Nat) : Int) ≤ maxDurationNanos) :
    plus (ofNat n (by omega)) (ofSeconds? k) = .ok (some (ofNat (n + k * nanosPerSecond) h)) := by
  rw [ofSeconds?_natCast, plus_ofNat h]

/-- The nanoseconds of days, a clock time and units of 100 nanoseconds. -/
def fieldNanos (days hours minutes seconds ticks : Nat) : Nat :=
  days * 86400 * nanosPerSecond + hours * 3600 * nanosPerSecond + minutes * 60 * nanosPerSecond +
    seconds * nanosPerSecond + ticks * 100

/-- What is summed up if every partial sum is a span. -/
theorem sumFields_of_plus (days hours minutes seconds ticks : Int) {a b c d : Duration}
    (hdays : ofSeconds? (days * 86400) = some a)
    (hhours : plus a (ofSeconds? (hours * 3600)) = .ok (some b))
    (hminutes : plus b (ofSeconds? (minutes * 60)) = .ok (some c))
    (hseconds : plus c (ofSeconds? seconds) = .ok (some d)) :
    sumFields days hours minutes seconds ticks = plus d (ofNanos? (ticks * 100)) := by
  unfold sumFields
  rw [hdays]
  show (plus a _ >>= _) = _
  rw [hhours]
  show (plus b _ >>= _) = _
  rw [hminutes]
  show (plus c _ >>= _) = _
  rw [hseconds]
  rfl

/-- **Fields whose sum is a span are summed without overflow.** Every partial sum is at most the
whole one. -/
theorem sumFields_eq (days hours minutes seconds ticks : Nat)
    (h : (fieldNanos days hours minutes seconds ticks : Int) ≤ maxDurationNanos) :
    sumFields days hours minutes seconds ticks =
      .ok (some (ofNat (fieldNanos days hours minutes seconds ticks) h)) := by
  have hpart {n : Nat} (hn : n ≤ fieldNanos days hours minutes seconds ticks) :
      (n : Int) ≤ maxDurationNanos := Int.le_trans (Int.ofNat_le.2 hn) h
  have hdays : ofSeconds? ((days * 86400 : Nat) : Int) =
      some (ofNat (days * 86400 * nanosPerSecond) (hpart (by unfold fieldNanos; omega))) := by
    rw [ofSeconds?_natCast, ofNanos?_natCast]
  have hhours := plus_ofSeconds (n := days * 86400 * nanosPerSecond) (k := hours * 3600)
    (hpart (by unfold fieldNanos; omega))
  have hminutes := plus_ofSeconds (k := minutes * 60) (n := days * 86400 * nanosPerSecond +
    hours * 3600 * nanosPerSecond) (hpart (by unfold fieldNanos; omega))
  have hseconds := plus_ofSeconds (k := seconds) (n := days * 86400 * nanosPerSecond +
    hours * 3600 * nanosPerSecond + minutes * 60 * nanosPerSecond)
    (hpart (by unfold fieldNanos; omega))
  have hsum := sumFields_of_plus days hours minutes seconds ticks hdays hhours hminutes hseconds
  rw [hsum]
  exact plus_ofNat h

/-! ### Clock texts -/

theorem byteLength_of_digits {text : List Char} (h : ∀ c ∈ text, c.isDigit = true) :
    byteLength text = text.length := by
  induction text with
  | nil => rfl
  | cons c text ih =>
    have hc : c.utf8Size = 1 := Char.utf8Size_eq_one_iff.2
      (Nat.le_of_lt_succ (Text.toNat_lt_of_isDigit (h c List.mem_cons_self)))
    rw [byteLength, List.foldr_cons, ← byteLength, hc,
      ih fun d hd => h d (List.mem_cons_of_mem c hd), List.length_cons, Nat.add_comm]

/-- A field of a clock is read as its number. -/
theorem readInt64_padded {width n : Nat} (h : n < 10 ^ 9) :
    Text.readInt64 10 (padded width n) = some (n : Int) :=
  Text.readInt64_padLeft (by unfold Text.maxInt64; omega)

/-- The seconds of a clock and their fraction are read as they are written. -/
theorem exists_fraction (seconds : Nat) {ticks : Nat} (h : ticks < 10 ^ 7) :
    ∃ fraction, (Text.cutAt '.' (padded 2 seconds ++ fractionText ticks)).getD
        (padded 2 seconds ++ fractionText ticks, []) = (padded 2 seconds, fraction) ∧
      byteLength fraction ≤ 7 ∧ readTicks fraction = some (ticks : Int) := by
  have hpoint : '.' ∉ padded 2 seconds := Text.not_mem_padLeft rfl
  unfold fractionText
  split
  · have hlength : (padded 7 ticks).length = 7 := Text.length_padLeft_decimal (by decide) h
    have hbytes : byteLength (padded 7 ticks) = (padded 7 ticks).length :=
      byteLength_of_digits fun _ => Text.isDigit_of_mem_padLeft
    have hpad : Text.padRight 7 (padded 7 ticks) = padded 7 ticks := by
      rw [Text.padRight, hlength]
      exact List.append_nil _
    have hne : ¬ (padded 7 ticks).isEmpty = true := fun hempty =>
      Text.padLeft_ne_nil 7 ticks (List.isEmpty_iff.1 hempty)
    refine ⟨padded 7 ticks, by rw [Text.cutAt_append_cons hpoint]; rfl, by rw [hbytes, hlength], ?_⟩
    rw [readTicks, if_neg hne, hpad, readInt64_padded (by omega)]
  · refine ⟨[], ?_, by decide, ?_⟩
    · rw [List.append_nil, Text.cutAt_of_not_mem hpoint]
      rfl
    · rw [show ticks = 0 by omega]
      rfl

/-- The text of a clock. -/
def clockText (hours minutes seconds ticks : Nat) : List Char :=
  padded 2 hours ++ ':' :: (padded 2 minutes ++ ':' :: (padded 2 seconds ++ fractionText ticks))

/-- **A clock is read as it is written.** -/
theorem clockFields_clockText (hours minutes seconds ticks : Nat) (hh : hours ≤ 23)
    (hm : minutes ≤ 59) (hs : seconds ≤ 59) (ht : ticks < 10 ^ 7) :
    clockFields (clockText hours minutes seconds ticks) =
      some ((hours : Int), (minutes : Int), (seconds : Int), (ticks : Int)) := by
  have hcolon {n : Nat} : ':' ∉ padded 2 n := Text.not_mem_padLeft rfl
  have hlast : ':' ∉ padded 2 seconds ++ fractionText ticks := fun h => by
    rcases List.mem_append.1 h with h | h
    · exact hcolon h
    · rcases mark_of_mem_fractionText h with h | h <;> cases h
  have hfield {n : Nat} (hn : n ≤ 59) : Text.readInt64 10 (padded 2 n) = some (n : Int) :=
    readInt64_padded (by omega)
  obtain ⟨fraction, hcut, hbytes, hticks⟩ := exists_fraction seconds ht
  have hparts : clockParts (clockText hours minutes seconds ticks) =
      some (padded 2 hours, padded 2 minutes, padded 2 seconds ++ fractionText ticks) := by
    rw [clockParts, clockText, Text.cutAll_append_cons hcolon, Text.cutAll_append_cons hcolon,
      Text.cutAll_of_not_mem hlast]
  rw [clockFields, hparts]
  simp only [Option.bind_eq_bind, Option.bind_some, hfield (show hours ≤ 59 by omega), hfield hm,
    hcut, hfield hs, hticks]
  rw [if_neg]
  · rfl
  · simp only [Bool.or_eq_true, decide_eq_true_eq]
    omega

/-! ### Whole texts -/

/-- A length in whole units of 100 nanoseconds, in the fields that its text shows. -/
theorem fieldNanos_of_length (n : Nat) :
    fieldNanos (n / nanosPerSecond / 86400) (n / nanosPerSecond / 3600 % 24)
      (n / nanosPerSecond / 60 % 60) (n / nanosPerSecond % 60) (n % nanosPerSecond / 100) =
        n / 100 * 100 := by
  unfold fieldNanos nanosPerSecond
  omega

theorem lengthText_eq_append (n : Nat) :
    lengthText n = daysText (n / nanosPerSecond / 86400) ++
      clockText (n / nanosPerSecond / 3600 % 24) (n / nanosPerSecond / 60 % 60)
        (n / nanosPerSecond % 60) (n % nanosPerSecond / 100) := by
  simp only [lengthText, clockText, List.append_assoc]

/-- Behind days a clock is read by itself. -/
theorem readMagnitude_days {days : Nat} {clock : List Char} {fields : Int × Int × Int × Int}
    (hdays : 0 < days) (hbound : (days : Int) ≤ Text.maxInt64) (hmark : ':' ∈ clock)
    (hclock : clockFields clock = some fields) :
    readMagnitude (daysText days ++ clock) =
      sumFields days fields.1 fields.2.1 fields.2.2.1 fields.2.2.2 := by
  have hmarked : ¬ (daysText days ++ clock).all Char.isDigit :=
    fun hall => by cases List.all_eq_true.1 hall ':' (List.mem_append_right _ hmark)
  have hpoint : '.' ∉ Text.decimal days := fun h => by cases Text.isDigit_of_mem_decimal h
  have hcolon : (Text.decimal days).contains ':' = false := by
    rw [List.contains_eq_mem, decide_eq_false_iff_not]
    exact fun h => by cases Text.isDigit_of_mem_decimal h
  have hcut : Text.cutAt '.' (daysText days ++ clock) = some (Text.decimal days, clock) := by
    rw [daysText, if_pos hdays, List.append_assoc, List.singleton_append,
      Text.cutAt_append_cons hpoint]
  have hread : Text.readInt64 10 (Text.decimal days) = some (days : Int) := by
    rw [← Text.padLeft_zero (Text.decimal days), Text.readInt64_padLeft hbound]
  rw [readMagnitude, if_neg hmarked, hcut]
  simp only [hcolon, hread, Bool.false_eq_true, if_false, Option.map_some, hclock]

/-- Without days a clock is the whole text: the point in it, if there is one, has a colon before
it. -/
theorem readMagnitude_clock {hours minutes seconds ticks : Nat} {fields : Int × Int × Int × Int}
    (hclock : clockFields (clockText hours minutes seconds ticks) = some fields) :
    readMagnitude (clockText hours minutes seconds ticks) =
      sumFields 0 fields.1 fields.2.1 fields.2.2.1 fields.2.2.2 := by
  have hmarked : ¬ (clockText hours minutes seconds ticks).all Char.isDigit :=
    fun hall => by cases List.all_eq_true.1 hall ':' (by simp [clockText])
  have hpoint {n : Nat} : '.' ∉ padded 2 n := Text.not_mem_padLeft rfl
  have hfront : '.' ∉ padded 2 hours ++ ':' :: (padded 2 minutes ++ ':' :: padded 2 seconds) := by
    simp [hpoint]
  have hassoc : clockText hours minutes seconds ticks =
      padded 2 hours ++ ':' :: (padded 2 minutes ++ ':' :: padded 2 seconds) ++
        fractionText ticks := by
    simp [clockText]
  have hcut : Text.cutAt '.' (clockText hours minutes seconds ticks) = none ∨
      ∃ before after, Text.cutAt '.' (clockText hours minutes seconds ticks) =
        some (before, after) ∧ before.contains ':' = true := by
    rw [hassoc]
    unfold fractionText
    split
    · exact .inr ⟨_, _, Text.cutAt_append_cons hfront _, by simp⟩
    · rw [List.append_nil]
      exact .inl (Text.cutAt_of_not_mem hfront)
  rw [readMagnitude, if_neg hmarked]
  rcases hcut with hcut | ⟨before, after, hcut, hcolon⟩
  · simp only [hcut, hclock]
  · simp only [hcut, hcolon, if_true, hclock]

/-- **The text of a length is read as the length in whole units.** A point behind days has no colon
before it, and one behind seconds has. -/
theorem readMagnitude_lengthText {n : Nat} (h : (n : Int) ≤ maxDurationNanos) :
    readMagnitude (lengthText n) = .ok (some (ofNat (n / 100 * 100) (by omega))) := by
  have hclock := clockFields_clockText (n / nanosPerSecond / 3600 % 24)
    (n / nanosPerSecond / 60 % 60) (n / nanosPerSecond % 60) (n % nanosPerSecond / 100)
    (by omega) (by omega) (by omega) (by unfold nanosPerSecond; omega)
  have hsum := sumFields_eq (n / nanosPerSecond / 86400) (n / nanosPerSecond / 3600 % 24)
    (n / nanosPerSecond / 60 % 60) (n / nanosPerSecond % 60) (n % nanosPerSecond / 100)
    (by rw [fieldNanos_of_length]; omega)
  simp only [fieldNanos_of_length] at hsum
  rw [lengthText_eq_append, ← hsum]
  by_cases hdays : 0 < n / nanosPerSecond / 86400
  · refine readMagnitude_days hdays ?_ (by simp [clockText]) hclock
    unfold maxDurationNanos at h
    unfold nanosPerSecond Text.maxInt64
    omega
  · rw [Nat.eq_zero_of_not_pos hdays, daysText, if_neg (Nat.lt_irrefl 0), List.nil_append]
    exact readMagnitude_clock hclock

/-- The text of a span has neither blanks nor signs inside. -/
theorem mem_lengthText {n : Nat} {c : Char} (h : c ∈ lengthText n) :
    c.isDigit = true ∨ c = '.' ∨ c = ':' := by
  have hfield {k : Nat} (hc : c ∈ padded 2 k) : c.isDigit = true ∨ c = '.' ∨ c = ':' :=
    .inl (Text.isDigit_of_mem_padLeft hc)
  unfold lengthText at h
  dsimp only at h
  simp only [List.mem_append, List.mem_cons] at h
  rcases h with (h | h) | rfl | h | rfl | h | h
  · exact (mark_of_mem_daysText h).imp_right .inl
  · exact hfield h
  · exact .inr (.inr rfl)
  · exact hfield h
  · exact .inr (.inr rfl)
  · exact hfield h
  · exact (mark_of_mem_fractionText h).imp_right .inl

/-- Nothing in the text of a span is changed before it is read, but for its sign. -/
theorem read_signed (d : Duration) :
    read d.text.toList =
      if d.nanos < 0 then (readMagnitude (lengthText d.nanos.natAbs)).map (·.map neg)
      else readMagnitude (lengthText d.nanos.natAbs) := by
  have htext : d.text.toList =
      (if d.nanos < 0 then ['-'] else []) ++ lengthText d.nanos.natAbs := by
    rw [text_eq, String.toList_ofList]
  have hmark {c : Char} (h : c ∈ d.text.toList) :
      c.isDigit = true ∨ c = '.' ∨ c = ':' ∨ c = '-' := by
    rw [htext] at h
    rcases List.mem_append.1 h with h | h
    · split at h
      · exact .inr (.inr (.inr (List.mem_singleton.1 h)))
      · cases h
    · rcases mem_lengthText h with h | h | h
      · exact .inl h
      · exact .inr (.inl h)
      · exact .inr (.inr (.inl h))
  have hblank {c : Char} (h : c ∈ d.text.toList) : Text.isBlank c = false := by
    rcases hmark h with h | rfl | rfl | rfl
    · exact Text.isBlank_of_isWordChar (Text.isWordChar_of_isDigit h)
    all_goals decide
  have hspace : d.text.toList.map (fun c => if c = ' ' then '.' else c) = d.text.toList := by
    refine (List.map_congr_left fun c hc => if_neg ?_).trans (List.map_id _)
    rintro rfl
    cases hblank hc
  rw [read, Text.trim_of_not_blank fun _ => hblank, hspace, htext]
  by_cases hneg : d.nanos < 0
  · rw [if_pos hneg, if_pos hneg]
    rfl
  · rw [if_neg hneg, if_neg hneg, List.nil_append]
    split
    · rename_i rest hrest
      exact absurd (hrest ▸ List.mem_cons_self) (dash_not_mem_lengthText d.nanos.natAbs)
    · rfl

/-- **A span is read from its text**, rounded toward zero to whole units of 100 nanoseconds, and
without overflow. It is read as it is if and only if it is made of whole units. -/
theorem reads_text (d : Duration) :
    (∃ e : Duration, read d.text.toList = .ok (some e) ∧ e.nanos = d.nanos.tdiv 100 * 100) ∧
      (read d.text.toList = .ok (some d) ↔ 100 ∣ d.nanos) := by
  have hbound : (d.nanos.natAbs : Int) ≤ maxDurationNanos := by
    have hlow := d.lower
    have hhigh := d.upper
    omega
  obtain ⟨e, he, hnanos⟩ : ∃ e : Duration, read d.text.toList = .ok (some e) ∧
      e.nanos = d.nanos.tdiv 100 * 100 := by
    rw [read_signed, readMagnitude_lengthText hbound]
    by_cases hneg : d.nanos < 0
    · refine ⟨(ofNat (d.nanos.natAbs / 100 * 100) (by omega)).neg, if_pos hneg, ?_⟩
      have hcut : d.nanos.tdiv 100 = -(-d.nanos / 100) := by
        rw [← Int.tdiv_eq_ediv_of_nonneg (by omega), Int.neg_tdiv, Int.neg_neg]
      show -((d.nanos.natAbs / 100 * 100 : Nat) : Int) = _
      omega
    · refine ⟨ofNat (d.nanos.natAbs / 100 * 100) (by omega), if_neg hneg, ?_⟩
      have hcut : d.nanos.tdiv 100 = d.nanos / 100 := Int.tdiv_eq_ediv_of_nonneg (by omega)
      show ((d.nanos.natAbs / 100 * 100 : Nat) : Int) = _
      omega
  refine ⟨⟨e, he, hnanos⟩, ?_⟩
  have hcut : d.nanos.tdiv 100 * 100 = d.nanos ↔ 100 ∣ d.nanos :=
    ⟨fun h => ⟨d.nanos.tdiv 100, by omega⟩, fun h => Int.tdiv_mul_cancel h⟩
  rw [he, ← hcut, ← hnanos]
  constructor
  · intro h
    cases h
    rfl
  · intro h
    have heq : e = d := by
      cases e
      cases d
      cases h
      rfl
    rw [heq]

end TypedSheets.Duration
