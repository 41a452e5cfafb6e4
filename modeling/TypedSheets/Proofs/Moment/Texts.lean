import TypedSheets.Moment.DateTime
import TypedSheets.Proofs.Text.Numerals
import TypedSheets.Proofs.Text.Pieces

/-!
# Texts of dates and spans

The text of a date shows its fields down to the second, and leaves the fraction of the second out.
The text of a span shows its sign and its length in units of 100 nanoseconds. Each text shows just
that: two dates or two spans have one text if and only if they agree in what is shown.

## Main definitions

* `DateTime.shown`, `Duration.shown` — what the text of a date, or of a span, shows.

## Main results

* `DateTime.text_eq_iff`, `Duration.text_eq_iff` — a text tells what it shows, and nothing else.
-/

namespace TypedSheets

namespace Duration

/-! ### Fields -/

/-- A field that is followed by a mark is told from the text. -/
theorem padded_append_cons_inj {width n k : Nat} {mark : Char} (h : mark.isDigit = false)
    {rest rest' : List Char} :
    padded width n ++ mark :: rest = padded width k ++ mark :: rest' ↔ n = k ∧ rest = rest' := by
  unfold padded
  rw [Text.append_cons_inj (Text.not_mem_padLeft h) (Text.not_mem_padLeft h), Text.padLeft_inj]

/-- A text that starts with a field does not start with a mark. -/
theorem padded_append_ne_cons {width n : Nat} {mark : Char} (h : mark.isDigit = false)
    (rest rest' : List Char) : padded width n ++ rest ≠ mark :: rest' := by
  intro heq
  obtain ⟨c, field, hfield⟩ := List.exists_cons_of_ne_nil (Text.padLeft_ne_nil width n)
  have hmem : c ∈ Text.padLeft width (Text.decimal n) := hfield ▸ List.mem_cons_self ..
  have hc : c.isDigit = true := Text.isDigit_of_mem_padLeft hmem
  rw [padded, hfield] at heq
  rw [(List.cons.inj heq).1, h] at hc
  cases hc

end Duration

/-! ### Dates -/

namespace DateTime

/-- What the text of a date shows: its fields down to the second, which is 60 in a leap second. -/
def shown (t : DateTime) : Int × Nat × Nat × Nat × Nat × Nat :=
  (t.year, t.month, t.day, t.hour, t.minute,
    if nanosPerSecond ≤ t.nanos then t.second + 1 else t.second)

/-- A year is written in digits, with a sign unless it lies between 0 and 9999. -/
theorem yearText_cases (year : Int) :
    (0 ≤ year ∧ yearText year = Duration.padded 4 year.natAbs) ∨
      (year < 0 ∧ yearText year = '-' :: Duration.padded 4 year.natAbs) ∨
        (9999 < year ∧ yearText year = '+' :: Duration.padded 4 year.natAbs) := by
  unfold yearText
  dsimp only
  split
  · rename_i h
    simp only [Bool.and_eq_true, decide_eq_true_eq] at h
    exact .inl ⟨h.1, rfl⟩
  · rename_i h
    simp only [Bool.and_eq_true, decide_eq_true_eq] at h
    split
    · rename_i hneg
      exact .inr (.inl ⟨hneg, rfl⟩)
    · exact .inr (.inr ⟨by omega, rfl⟩)

/-- A year that is followed by a dash is told from the text. -/
theorem yearText_append_cons_inj {year year' : Int} {rest rest' : List Char} :
    yearText year ++ '-' :: rest = yearText year' ++ '-' :: rest' ↔
      year = year' ∧ rest = rest' := by
  refine ⟨fun h => ?_, fun ⟨h, h'⟩ => h ▸ h' ▸ rfl⟩
  have hdash : '-'.isDigit = false := rfl
  have hplus : '+'.isDigit = false := rfl
  rcases yearText_cases year with ⟨hyear, htext⟩ | ⟨hyear, htext⟩ | ⟨hyear, htext⟩ <;>
    rcases yearText_cases year' with ⟨hyear', htext'⟩ | ⟨hyear', htext'⟩ | ⟨hyear', htext'⟩ <;>
      rw [htext, htext'] at h
  -- years with one sign
  case inl.inl =>
    obtain ⟨habs, hrest⟩ := (Duration.padded_append_cons_inj hdash).1 h
    exact ⟨by omega, hrest⟩
  case inr.inl.inr.inl =>
    obtain ⟨habs, hrest⟩ := (Duration.padded_append_cons_inj hdash).1 (List.cons.inj h).2
    exact ⟨by omega, hrest⟩
  case inr.inr.inr.inr =>
    obtain ⟨habs, hrest⟩ := (Duration.padded_append_cons_inj hdash).1 (List.cons.inj h).2
    exact ⟨by omega, hrest⟩
  -- a sign is not a digit
  case inl.inr.inl => exact absurd h (Duration.padded_append_ne_cons hdash _ _)
  case inl.inr.inr => exact absurd h (Duration.padded_append_ne_cons hplus _ _)
  case inr.inl.inl => exact absurd h.symm (Duration.padded_append_ne_cons hdash _ _)
  case inr.inr.inl => exact absurd h.symm (Duration.padded_append_ne_cons hplus _ _)
  case inr.inl.inr.inr => cases (List.cons.inj h).1
  case inr.inr.inr.inl => cases (List.cons.inj h).1

/-- **Two dates have one text if and only if they agree down to the second.** -/
theorem text_eq_iff {t u : DateTime} : t.text = u.text ↔ t.shown = u.shown := by
  have hdash : '-'.isDigit = false := rfl
  have hblank : ' '.isDigit = false := rfl
  have hcolon : ':'.isDigit = false := rfl
  have hlast {n k : Nat} : Duration.padded 2 n = Duration.padded 2 k ↔ n = k := Text.padLeft_inj
  unfold text
  rw [String.ofList_inj]
  simp only [dateText, clockText, shown, List.append_assoc, List.cons_append,
    yearText_append_cons_inj, Duration.padded_append_cons_inj hdash,
    Duration.padded_append_cons_inj hblank, Duration.padded_append_cons_inj hcolon, hlast,
    Prod.mk.injEq]

end DateTime

/-! ### Spans -/

namespace Duration

/-- What the text of a span shows: whether it is negative, and its length in units of 100
nanoseconds. -/
def shown (d : Duration) : Bool × Nat :=
  (d.nanos < 0, d.nanos.natAbs / 100)

/-- The text of a number of days in front of a clock. -/
def daysText (days : Nat) : List Char :=
  if 0 < days then Text.decimal days ++ ['.'] else []

/-- The text of a fraction of a second behind a clock. -/
def fractionText (ticks : Nat) : List Char :=
  if 0 < ticks then '.' :: padded 7 ticks else []

/-- The text of a span without its sign. -/
def lengthText (nanos : Nat) : List Char :=
  let seconds := nanos / nanosPerSecond
  daysText (seconds / 86400) ++ padded 2 (seconds / 3600 % 24) ++ ':' ::
    (padded 2 (seconds / 60 % 60) ++ ':' ::
      (padded 2 (seconds % 60) ++ fractionText (nanos % nanosPerSecond / 100)))

theorem text_eq (d : Duration) :
    d.text = String.ofList ((if d.nanos < 0 then ['-'] else []) ++ lengthText d.nanos.natAbs) := by
  simp only [text, lengthText, daysText, fractionText, List.append_assoc, List.cons_append]

/-- The characters of a span other than its sign. -/
theorem mark_of_mem_daysText {days : Nat} {c : Char} (h : c ∈ daysText days) :
    c.isDigit = true ∨ c = '.' := by
  unfold daysText at h
  split at h
  · rcases List.mem_append.1 h with h | h
    · exact .inl (Text.isDigit_of_mem_decimal h)
    · exact .inr (List.mem_singleton.1 h)
  · cases h

theorem mark_of_mem_fractionText {ticks : Nat} {c : Char} (h : c ∈ fractionText ticks) :
    c.isDigit = true ∨ c = '.' := by
  unfold fractionText at h
  split at h
  · rcases List.mem_cons.1 h with h | h
    · exact .inr h
    · exact .inl (Text.isDigit_of_mem_padLeft h)
  · cases h

theorem dash_not_mem_lengthText (nanos : Nat) : '-' ∉ lengthText nanos := by
  have hdash {width n : Nat} : '-' ∉ padded width n := Text.not_mem_padLeft rfl
  have hdays {days : Nat} : '-' ∉ daysText days := fun h => by
    rcases mark_of_mem_daysText h with h | h <;> cases h
  have hfraction {ticks : Nat} : '-' ∉ fractionText ticks := fun h => by
    rcases mark_of_mem_fractionText h with h | h <;> cases h
  simp [lengthText, hdash, hdays, hfraction]

/-- The days and the hours are told from the text in front of the first colon. -/
theorem daysText_append_inj {days days' hours hours' : Nat} :
    daysText days ++ padded 2 hours = daysText days' ++ padded 2 hours' ↔
      days = days' ∧ hours = hours' := by
  have hpoint {n : Nat} : '.' ∉ Text.decimal n := fun h => by
    cases Text.isDigit_of_mem_decimal h
  have hfield {n : Nat} : '.' ∉ padded 2 n := Text.not_mem_padLeft rfl
  refine ⟨fun h => ?_, fun ⟨h, h'⟩ => h ▸ h' ▸ rfl⟩
  -- a point stands in the text just if there are days
  have hmark := congrArg (fun text => '.' ∈ text) h
  unfold daysText at h hmark
  by_cases hdays : 0 < days <;> by_cases hdays' : 0 < days'
  · rw [if_pos hdays, if_pos hdays', List.append_assoc, List.append_assoc, List.singleton_append,
      List.singleton_append, Text.append_cons_inj hpoint hpoint, Text.decimal_inj] at h
    exact ⟨h.1, Text.padLeft_inj.1 h.2⟩
  · simp [hdays, hdays', hpoint, hfield] at hmark
  · simp [hdays, hdays', hpoint, hfield] at hmark
  · rw [if_neg hdays, if_neg hdays'] at h
    exact ⟨by omega, Text.padLeft_inj.1 h⟩

/-- The seconds and their fraction are told from the text behind the last colon. -/
theorem append_fractionText_inj {seconds seconds' ticks ticks' : Nat} :
    padded 2 seconds ++ fractionText ticks = padded 2 seconds' ++ fractionText ticks' ↔
      seconds = seconds' ∧ ticks = ticks' := by
  have hfield {n : Nat} : '.' ∉ padded 2 n := Text.not_mem_padLeft rfl
  refine ⟨fun h => ?_, fun ⟨h, h'⟩ => h ▸ h' ▸ rfl⟩
  have hmark := congrArg (fun text => '.' ∈ text) h
  unfold fractionText at h hmark
  by_cases hticks : 0 < ticks <;> by_cases hticks' : 0 < ticks'
  · rw [if_pos hticks, if_pos hticks', padded_append_cons_inj rfl] at h
    exact ⟨h.1, Text.padLeft_inj.1 h.2⟩
  · simp [hticks, hticks', hfield] at hmark
  · simp [hticks, hticks', hfield] at hmark
  · rw [if_neg hticks, if_neg hticks', List.append_nil, List.append_nil] at h
    exact ⟨Text.padLeft_inj.1 h, by omega⟩

theorem lengthText_eq_iff {a b : Nat} : lengthText a = lengthText b ↔ a / 100 = b / 100 := by
  have hcolon {days hours : Nat} : ':' ∉ daysText days ++ padded 2 hours := fun h => by
    rcases List.mem_append.1 h with h | h
    · rcases mark_of_mem_daysText h with h | h <;> cases h
    · exact Text.not_mem_padLeft rfl h
  unfold lengthText
  rw [Text.append_cons_inj hcolon hcolon, daysText_append_inj, padded_append_cons_inj rfl,
    append_fractionText_inj]
  unfold nanosPerSecond
  omega

/-- A sign is told from the text that it stands in front of. -/
theorem sign_append_inj {p q : Prop} [Decidable p] [Decidable q] {text text' : List Char}
    (h : '-' ∉ text) (h' : '-' ∉ text') :
    (if p then ['-'] else []) ++ text = (if q then ['-'] else []) ++ text' ↔
      (p ↔ q) ∧ text = text' := by
  by_cases hp : p <;> by_cases hq : q
  · simp [hp, hq]
  · have hne : '-' :: text ≠ text' := fun heq => h' (heq ▸ List.mem_cons_self ..)
    simp [hp, hq, hne]
  · have hne : text ≠ '-' :: text' := fun heq => h (heq ▸ List.mem_cons_self ..)
    simp [hp, hq, hne]
  · simp [hp, hq]

/-- **Two spans have one text if and only if they have one sign and are equally long in units of 100
nanoseconds.** -/
theorem text_eq_iff {d e : Duration} : d.text = e.text ↔ d.shown = e.shown := by
  rw [text_eq, text_eq, String.ofList_inj, shown, shown, Prod.mk.injEq, decide_eq_decide,
    sign_append_inj (dash_not_mem_lengthText _) (dash_not_mem_lengthText _), lengthText_eq_iff]

end Duration

end TypedSheets
