import TypedSheets.Proofs.Moment.Fields

/-!
# The documented texts of spans

The documentation of spans has digits in their fields and one sign in front. The reader takes signed
numbers in every field, so it reads the documented texts and some more: those that have a sign
inside them. Texts without `+`, and without `-` behind the first character, are read exactly as
documented.

## Main definitions

* `Duration.Digits` — the documented numerals.
* `Duration.Denotes` — the documented texts, with their signs and fields.
* `Duration.SignedInside` — the texts that are read although signs stand inside them.

## Main results

* `Duration.readMagnitude_eq_iff` — a text over digits is read as its span.
* `Duration.reads_grammar` — the documented texts are read as their spans, and all others are
  refused exactly as long as no signs stand inside them.
-/

namespace TypedSheets.Duration

/-- One or more decimal digits. -/
def Digits (text : List Char) (n : Int) : Prop :=
  text ≠ [] ∧ (∀ c ∈ text, c.isDigit = true) ∧ n = Nat.ofDigitChars 10 text 0

/-! ### Texts without inner signs -/

/-- A text of a span over one class of numerals is one over another class, if the numerals in it
are: those of at most 59 or of seven places, and the days. -/
theorem ClockOf.imp {N M : Numerals} {text : List Char} {f : Fields} (h : ClockOf N text f)
    (hnum : ∀ t n, (∀ c ∈ t, c ∈ text ∨ c = '0') → (n ≤ 59 ∨ t.length = 7) → N t n → M t n) :
    ClockOf M text f := by
  have hplace {places : List Char} (hwidth : places.length ≤ 7) :
      (Text.padRight 7 places).length = 7 := by
    rw [Text.padRight, List.length_append, List.length_replicate]
    omega
  cases h with
  | minutes hh hhbound hm hmbound =>
    exact .minutes (hnum _ _ (fun c hc => .inl (by simp [hc])) (.inl (by omega)) hh) hhbound
      (hnum _ _ (fun c hc => .inl (by simp [hc])) (.inl hmbound) hm) hmbound
  | seconds hh hhbound hm hmbound hs =>
    refine .seconds (hnum _ _ (fun c hc => .inl (by simp [hc])) (.inl (by omega)) hh) hhbound
      (hnum _ _ (fun c hc => .inl (by simp [hc])) (.inl hmbound) hm) hmbound ?_
    cases hs with
    | whole hs hbound =>
      exact .whole (hnum _ _ (fun c hc => .inl (by simp [hc])) (.inl hbound) hs) hbound
    | fraction hs hbound hwidth hticks =>
      refine .fraction (hnum _ _ (fun c hc => .inl (by simp [hc])) (.inl hbound) hs) hbound hwidth
        (hnum _ _ (fun c hc => ?_) (.inr (hplace hwidth)) hticks)
      rcases List.mem_append.1 hc with hc | hc
      · exact .inl (by simp [hc])
      · exact .inr (List.mem_replicate.1 hc).2

/-- Digits denote no number beyond their count. -/
theorem Digits.lt {text : List Char} {n : Int} (h : Digits text n) : n < 10 ^ text.length := by
  rw [h.2.2]
  exact Int.ofNat_lt.2 (Text.ofDigitChars_lt h.2.1)

theorem Digits.nonneg {text : List Char} {n : Int} (h : Digits text n) : 0 ≤ n := by
  rw [h.2.2]
  exact Int.natCast_nonneg _

/-- Digits are signed digits as long as their number fits. -/
theorem Digits.readInt64_eq {text : List Char} {n : Int} (h : Digits text n) :
    Text.readInt64 10 text = if n ≤ Text.maxInt64 then some n else none := by
  obtain ⟨hne, hdigits, hn⟩ := h
  have hread : Text.readNat 10 text = some (Nat.ofDigitChars 10 text 0) :=
    Text.readNat_eq_some_iff.2 ⟨hne, hdigits, rfl⟩
  have hlow : Text.minInt64 ≤ n := hn ▸ Int.le_trans (by decide) (Int.natCast_nonneg _)
  rw [Text.readInt64, Text.readInt_of_digits hdigits, hread, Option.map_some]
  show Option.filter _ (some ((Nat.ofDigitChars 10 text 0 : Nat) : Int)) = _
  rw [← hn, Option.filter_some]
  simp [hlow]

theorem Digits.signed {text : List Char} {n : Int} (h : Digits text n) (hn : n ≤ Text.maxInt64) :
    SignedDigits text n := by
  rw [SignedDigits, h.readInt64_eq, if_pos hn]

/-- Signed digits without a sign are digits. -/
theorem SignedDigits.digits {text : List Char} {n : Int} (h : SignedDigits text n)
    (hplus : '+' ∉ text) (hdash : '-' ∉ text) : Digits text n := by
  have hdigits : ∀ c ∈ text, c.isDigit = true := by
    intro c hc
    rcases h.mark hc with hdigit | rfl | rfl
    · exact hdigit
    · exact absurd hc hplus
    · exact absurd hc hdash
  have hread := (Option.filter_eq_some_iff.1 h).1
  rw [Text.readInt_of_digits hdigits] at hread
  obtain ⟨k, hk, rfl⟩ := Option.map_eq_some_iff.1 hread
  obtain ⟨hne, -, rfl⟩ := Text.readNat_eq_some_iff.1 hk
  exact ⟨hne, hdigits, rfl⟩

theorem ClockOf.signed {text : List Char} {f : Fields} (h : ClockOf Digits text f) :
    ClockOf SignedDigits text f :=
  h.imp fun t n _ hbound ht => ht.signed <| by
    rcases hbound with hbound | hlength
    · exact hbound.trans (by decide)
    · have hlt := ht.lt
      rw [hlength] at hlt
      unfold Text.maxInt64
      omega

/-- A text over signed digits in which no sign stands is one over digits. -/
theorem SpanOf.digits {text : List Char} {f : Fields} (h : SpanOf SignedDigits text f)
    (hplus : '+' ∉ text) (hdash : '-' ∉ text) : SpanOf Digits text f := by
  have hclock {clock : List Char} {f : Fields} (h : ClockOf SignedDigits clock f)
      (hsub : ∀ c ∈ clock, c ∈ text) : ClockOf Digits clock f :=
    h.imp fun t n hmem _ ht => by
      refine ht.digits (fun hc => ?_) fun hc => ?_
      · rcases hmem _ hc with hc | hc
        · exact hplus (hsub _ hc)
        · cases hc
      · rcases hmem _ hc with hc | hc
        · exact hdash (hsub _ hc)
        · cases hc
  cases h with
  | days hdigits hd => exact .days hdigits (hd.digits hplus hdash)
  | clock hc => exact .clock (hclock hc fun _ hc => hc)
  | daysAndClock hd hc =>
    simp only [List.mem_append, List.mem_cons, not_or] at hplus hdash
    exact .daysAndClock (hd.digits hplus.1 hdash.1) (hclock hc fun _ hc => by simp [hc])

/-- In a text over digits stand digits and the marks between the fields. -/
theorem SpanOf.mark {text : List Char} {f : Fields} (h : SpanOf Digits text f) {c : Char}
    (hc : c ∈ text) : c.isDigit = true ∨ c = '.' ∨ c = ':' := by
  have hnumeral {t : List Char} {n : Int} (ht : Digits t n) (hc : c ∈ t) :
      c.isDigit = true ∨ c = '.' ∨ c = ':' := .inl (ht.2.1 c hc)
  have hclock {clock : List Char} {f : Fields} (h : ClockOf Digits clock f) (hc : c ∈ clock) :
      c.isDigit = true ∨ c = '.' ∨ c = ':' := by
    cases h with
    | minutes hh _ hm _ =>
      simp only [List.mem_append, List.mem_cons] at hc
      rcases hc with hc | hc | hc
      · exact hnumeral hh hc
      · exact .inr (.inr hc)
      · exact hnumeral hm hc
    | seconds hh _ hm _ hs =>
      simp only [List.mem_append, List.mem_cons] at hc
      rcases hc with hc | hc | hc | hc | hc
      · exact hnumeral hh hc
      · exact .inr (.inr hc)
      · exact hnumeral hm hc
      · exact .inr (.inr hc)
      · cases hs with
        | whole hs _ => exact hnumeral hs hc
        | fraction hs _ _ hticks =>
          simp only [List.mem_append, List.mem_cons] at hc
          rcases hc with hc | hc | hc
          · exact hnumeral hs hc
          · exact .inr (.inl hc)
          · exact hnumeral hticks (List.mem_append_left _ hc)
  cases h with
  | days hdigits _ => exact .inl (hdigits c hc)
  | clock h => exact hclock h hc
  | daysAndClock hd h =>
    simp only [List.mem_append, List.mem_cons] at hc
    rcases hc with hc | hc | hc
    · exact hnumeral hd hc
    · exact .inr (.inl hc)
    · exact hclock h hc

/-! ### Documented texts -/

/-- Fields that are not negative, with a clock time of less than a day. -/
structure Fields.OfDay (f : Fields) : Prop where
  /-- The days are not negative. -/
  days : 0 ≤ f.days
  /-- There are 24 hours. -/
  hours : 0 ≤ f.hours ∧ f.hours ≤ 23
  /-- An hour has 60 minutes. -/
  minutes : 0 ≤ f.minutes ∧ f.minutes ≤ 59
  /-- A minute has 60 seconds. -/
  seconds : 0 ≤ f.seconds ∧ f.seconds ≤ 59
  /-- A second has ten million units of 100 nanoseconds. -/
  ticks : 0 ≤ f.ticks ∧ f.ticks < 10 ^ 7

theorem ClockOf.ofDay {text : List Char} {f : Fields} (h : ClockOf Digits text f) : f.OfDay := by
  cases h with
  | minutes hh hhbound hm hmbound =>
    exact ⟨Int.le_refl 0, ⟨hh.nonneg, hhbound⟩, ⟨hm.nonneg, hmbound⟩, by simp, by simp⟩
  | seconds hh hhbound hm hmbound hs =>
    cases hs with
    | whole hs hbound =>
      exact ⟨Int.le_refl 0, ⟨hh.nonneg, hhbound⟩, ⟨hm.nonneg, hmbound⟩, ⟨hs.nonneg, hbound⟩,
        by simp⟩
    | fraction hs hbound hwidth hticks =>
      have hlt := hticks.lt
      rw [Text.padRight, List.length_append, List.length_replicate,
        Nat.add_sub_cancel' hwidth] at hlt
      exact ⟨Int.le_refl 0, ⟨hh.nonneg, hhbound⟩, ⟨hm.nonneg, hmbound⟩, ⟨hs.nonneg, hbound⟩,
        hticks.nonneg, hlt⟩

theorem SpanOf.ofDay {text : List Char} {f : Fields} (h : SpanOf Digits text f) : f.OfDay := by
  cases h with
  | days _ hd => exact ⟨hd.nonneg, by simp, by simp, by simp, by simp⟩
  | clock h => exact h.ofDay
  | daysAndClock hd h => exact { h.ofDay with days := hd.nonneg }

theorem Fields.OfDay.clock_bounds {f : Fields} (h : f.OfDay) :
    0 ≤ f.clock ∧ f.clock < 86400 * nanosPerSecond := by
  obtain ⟨-, hhours, hminutes, hseconds, hticks⟩ := h
  unfold clock nanosPerSecond
  omega

/-- The sum of such fields is their span, unless that is beyond the bounds. -/
theorem Fields.OfDay.sum_eq_iff {f : Fields} (h : f.OfDay) {d : Duration} :
    f.sum = .ok (some d) ↔ d.nanos = f.nanos := by
  refine ⟨nanos_of_sum, fun hd => ?_⟩
  obtain ⟨days, hours, minutes, seconds, ticks⟩ := f
  obtain ⟨hdays, hhours, hminutes, hseconds, hticks⟩ := h
  obtain ⟨days, rfl⟩ := Int.eq_ofNat_of_zero_le hdays
  obtain ⟨hours, rfl⟩ := Int.eq_ofNat_of_zero_le hhours.1
  obtain ⟨minutes, rfl⟩ := Int.eq_ofNat_of_zero_le hminutes.1
  obtain ⟨seconds, rfl⟩ := Int.eq_ofNat_of_zero_le hseconds.1
  obtain ⟨ticks, rfl⟩ := Int.eq_ofNat_of_zero_le hticks.1
  have hnanos : (fieldNanos days hours minutes seconds ticks : Int) = d.nanos := by
    rw [hd]
    unfold fieldNanos nanos clock nanosPerSecond
    push_cast
    omega
  have hbound : (fieldNanos days hours minutes seconds ticks : Int) ≤ maxDurationNanos :=
    hnanos ▸ d.upper
  rw [sum, sumFields_eq days hours minutes seconds ticks hbound]
  cases d
  cases hnanos
  rfl

/-- More days than 64 bits can count are no span. -/
theorem Fields.OfDay.nanos_ne {f : Fields} (h : f.OfDay) (hdays : Text.maxInt64 < f.days)
    (d : Duration) : d.nanos ≠ f.nanos := by
  have hclock := h.clock_bounds
  have hupper := d.upper
  unfold nanos
  unfold maxDurationNanos at hupper
  unfold Text.maxInt64 at hdays
  unfold nanosPerSecond at *
  omega

theorem SpanOf.signed {text : List Char} {f : Fields} (h : SpanOf Digits text f)
    (hdays : f.days ≤ Text.maxInt64) : SpanOf SignedDigits text f := by
  cases h with
  | days hdigits hd => exact .days hdigits (hd.signed hdays)
  | clock h => exact .clock h.signed
  | daysAndClock hd h => exact .daysAndClock (hd.signed hdays) h.signed

/-- A text of more days than 64 bits can count is refused. -/
theorem readMagnitude_of_lt {text : List Char} {f : Fields} (h : SpanOf Digits text f)
    (hdays : Text.maxInt64 < f.days) : readMagnitude text = .ok none := by
  cases h with
  | days hdigits hd =>
    rw [readMagnitude_digits hdigits, hd.readInt64_eq, if_neg (Int.not_le.2 hdays)]
    rfl
  | clock h => exact absurd hdays (by rw [(clockOf_iff.1 h.signed).1]; decide)
  | @daysAndClock days clock n f hd hc =>
    have hnot {c : Char} (hc : c.isDigit = false) : c ∉ days := fun hmem => by
      rw [hd.2.1 c hmem] at hc
      cases hc
    rw [readMagnitude_point (hnot rfl) (hnot rfl), hd.readInt64_eq, if_neg (Int.not_le.2 hdays)]

/-- **A text over digits is read as its span**, unless that is beyond the bounds. -/
theorem readMagnitude_eq_iff {text : List Char} {f : Fields} (h : SpanOf Digits text f)
    {d : Duration} : readMagnitude text = .ok (some d) ↔ d.nanos = f.nanos := by
  by_cases hdays : f.days ≤ Text.maxInt64
  · rw [readMagnitude_eq (h.signed hdays), h.ofDay.sum_eq_iff]
  · have hdays := Int.not_le.1 hdays
    rw [readMagnitude_of_lt h hdays]
    exact ⟨nofun, fun hd => absurd hd (h.ofDay.nanos_ne hdays d)⟩

/-- A text as its fields are read: without outer blanks, and with points for spaces. -/
def prepared (text : List Char) : List Char :=
  (Text.trim text).map fun c => if c = ' ' then '.' else c

/-- A text without the sign in front, if there is one. -/
def magnitude : List Char → List Char
  | '-' :: rest => rest
  | text => text

/-- The documented texts of spans: digits in the fields, and one sign in front of them or none. -/
inductive Denotes : List Char → Int → Fields → Prop
  /-- Without a sign. -/
  | plain {text : List Char} {f : Fields} (span : SpanOf Digits text f) : Denotes text 1 f
  /-- With a sign. -/
  | negative {text : List Char} {f : Fields} (span : SpanOf Digits text f) :
    Denotes ('-' :: text) (-1) f

/-- A text whose fields can be read and summed, although signs stand in front of some of them. -/
def SignedInside (text : List Char) : Prop :=
  ('+' ∈ text ∨ '-' ∈ text) ∧ ∃ f, SpanOf SignedDigits text f ∧ f.sum ≠ .ok none

theorem read_of_dash {text rest : List Char} (h : prepared text = '-' :: rest) :
    read text = (readMagnitude rest).map (·.map neg) := by
  rw [prepared] at h
  unfold read
  dsimp only
  rw [h]
  rfl

theorem read_of_plain {text : List Char} (h : ∀ rest, prepared text ≠ '-' :: rest) :
    read text = readMagnitude (prepared text) := by
  unfold read
  dsimp only
  rw [← prepared]
  split
  · rename_i rest hrest
    exact absurd hrest (h rest)
  · rfl

theorem magnitude_of_plain {text : List Char} (h : ∀ rest, text ≠ '-' :: rest) :
    magnitude text = text := by
  unfold magnitude
  split
  · rename_i rest
    exact absurd rfl (h rest)
  · rfl

/-- No sign stands inside a documented text. -/
theorem SpanOf.not_mem {text : List Char} {f : Fields} (h : SpanOf Digits text f) :
    '+' ∉ text ∧ '-' ∉ text := by
  constructor
  · intro hc
    rcases h.mark hc with h | h | h <;> cases h
  · intro hc
    rcases h.mark hc with h | h | h <;> cases h

theorem neg_neg (d : Duration) : d.neg.neg = d := by
  cases d
  simp only [neg, Int.neg_neg]

/-- A span turned around is read where its other side is. -/
theorem map_neg_eq_iff {r : Except Overflow (Option Duration)} {d : Duration} :
    r.map (·.map neg) = .ok (some d) ↔ r = .ok (some d.neg) := by
  constructor
  · intro h
    cases r with
    | error e => cases h
    | ok found =>
      obtain ⟨e, rfl, rfl⟩ := Option.map_eq_some_iff.1 (Except.ok.inj h)
      rw [neg_neg]
  · rintro rfl
    show Except.ok (some d.neg.neg) = _
    rw [neg_neg]

/-- A text is refused as its magnitude is. -/
theorem read_eq_none_iff (text : List Char) :
    read text = .ok none ↔ readMagnitude (magnitude (prepared text)) = .ok none := by
  by_cases h : ∃ rest, prepared text = '-' :: rest
  · obtain ⟨rest, hrest⟩ := h
    rw [read_of_dash hrest, hrest]
    show (readMagnitude rest).map _ = _ ↔ readMagnitude rest = _
    constructor
    · intro hnone
      cases hfound : readMagnitude rest with
      | error e =>
        rw [hfound] at hnone
        cases hnone
      | ok found =>
        rw [hfound] at hnone
        rw [Option.map_eq_none_iff.1 (Except.ok.inj hnone)]
    · intro hnone
      rw [hnone]
      rfl
  · have hplain := not_exists.1 h
    rw [read_of_plain hplain, magnitude_of_plain hplain]

/-- The magnitudes of the documented texts are those over digits. -/
theorem exists_denotes_iff (text : List Char) :
    (∃ sign f, Denotes text sign f) ↔ ∃ f, SpanOf Digits (magnitude text) f := by
  constructor
  · rintro ⟨sign, f, h⟩
    cases h with
    | plain hspan =>
      refine ⟨f, ?_⟩
      rwa [magnitude_of_plain fun rest hrest => hspan.not_mem.2 (by simp [hrest])]
    | negative hspan => exact ⟨f, hspan⟩
  · rintro ⟨f, h⟩
    by_cases hdash : ∃ rest, text = '-' :: rest
    · obtain ⟨rest, rfl⟩ := hdash
      exact ⟨-1, f, .negative h⟩
    · rw [magnitude_of_plain (not_exists.1 hdash)] at h
      exact ⟨1, f, .plain h⟩

/-- **A documented text is read as its span**, with its sign. -/
theorem Denotes.read_eq_iff {text : List Char} {sign : Int} {f : Fields}
    (h : Denotes (prepared text) sign f) {d : Duration} :
    read text = .ok (some d) ↔ d.nanos = sign * f.nanos := by
  generalize hprepared : prepared text = body at h
  cases h with
  | plain hspan =>
    have hplain (rest : List Char) : prepared text ≠ '-' :: rest := fun hrest =>
      hspan.not_mem.2 (by simp [← hprepared, hrest])
    rw [read_of_plain hplain, hprepared, readMagnitude_eq_iff hspan, Int.one_mul]
  | negative hspan =>
    rw [read_of_dash hprepared, map_neg_eq_iff, readMagnitude_eq_iff hspan]
    show -d.nanos = _ ↔ _
    omega

theorem Denotes.ofDay {text : List Char} {sign : Int} {f : Fields} (h : Denotes text sign f) :
    f.OfDay := by
  cases h with
  | plain hspan => exact hspan.ofDay
  | negative hspan => exact hspan.ofDay

/-- A text that is not documented is refused unless signs stand inside it. -/
theorem eq_none_of_not_denotes {text : List Char}
    (h : ¬ ∃ sign f, Denotes (prepared text) sign f)
    (hsigns : ¬ SignedInside (magnitude (prepared text))) : read text = .ok none := by
  rw [exists_denotes_iff] at h
  rw [read_eq_none_iff]
  by_contra hread
  obtain ⟨f, hf⟩ := exists_spanOf hread
  rw [readMagnitude_eq hf] at hread
  by_cases hmarks : '+' ∈ magnitude (prepared text) ∨ '-' ∈ magnitude (prepared text)
  · exact hsigns ⟨hmarks, f, hf, hread⟩
  · rw [not_or] at hmarks
    exact h ⟨f, hf.digits hmarks.1 hmarks.2⟩

/-- A text with signs inside it is not documented, and not refused. -/
theorem SignedInside.ne_none {text : List Char} (h : SignedInside (magnitude (prepared text))) :
    (¬ ∃ sign f, Denotes (prepared text) sign f) ∧ read text ≠ .ok none := by
  obtain ⟨hmarks, f, hf, hsum⟩ := h
  refine ⟨fun hdenotes => ?_, ?_⟩
  · obtain ⟨g, hg⟩ := (exists_denotes_iff _).1 hdenotes
    exact hmarks.elim hg.not_mem.1 hg.not_mem.2
  · rwa [Ne, read_eq_none_iff, readMagnitude_eq hf]

/-- **What texts are read as spans.** A documented text, trimmed and with points for spaces, is
read as its sign times its days and a clock time of less than a day, if that lies within the bounds.
All other texts are refused exactly as long as no signs stand inside them: the fields are read over
signed digits, and only their upper bounds are looked at. -/
theorem reads_grammar (text : List Char) :
    (∀ sign f, Denotes (prepared text) sign f →
      0 ≤ f.days ∧ (0 ≤ f.clock ∧ f.clock < 86400 * nanosPerSecond) ∧
      ∀ d, read text = .ok (some d) ↔
        d.nanos = sign * (f.days * 86400 * nanosPerSecond + f.clock)) ∧
    (((∀ d, read text = .ok (some d) → ∃ sign f, Denotes (prepared text) sign f) ∧
      ((∀ sign f, ¬ Denotes (prepared text) sign f) → read text = .ok none)) ↔
        ¬ SignedInside (magnitude (prepared text))) := by
  refine ⟨fun sign f h => ⟨h.ofDay.days, h.ofDay.clock_bounds, fun d => h.read_eq_iff⟩, ?_, ?_⟩
  · rintro ⟨-, hrefused⟩ hsigns
    obtain ⟨hnot, hread⟩ := hsigns.ne_none
    exact hread (hrefused fun sign f h => hnot ⟨sign, f, h⟩)
  · intro hsigns
    have hrefused (h : ¬ ∃ sign f, Denotes (prepared text) sign f) :=
      eq_none_of_not_denotes h hsigns
    refine ⟨fun d hread => ?_, fun h => hrefused fun ⟨sign, f, hf⟩ => h sign f hf⟩
    by_contra hnot
    rw [hrefused hnot] at hread
    cases hread

/-- A minute field with a sign is read: half an hour instead of a refusal. -/
theorem reads_inner_sign :
    read "1:-30".toList = (.ok (ofSeconds? 1800) : Except Overflow (Option Duration)) ∧
    ¬ ∃ sign f, Denotes (prepared "1:-30".toList) sign f := by
  refine ⟨by decide, fun h => ?_⟩
  obtain ⟨f, hf⟩ := (exists_denotes_iff _).1 h
  exact hf.not_mem.2 (by decide)

end TypedSheets.Duration
