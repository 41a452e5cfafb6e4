import TypedSheets.Proofs.Collections
import TypedSheets.Proofs.Moment.RoundTrip
import TypedSheets.Proofs.Text.Pieces

/-!
# The fields of the texts of spans

The fields of a span are read one by one over signed numbers, and only their upper bounds are looked
at. This module says which texts get through: a grammar over a class of numerals, here signed digits
that fit 64 bits, whose texts are read as the sums of their fields while all others are refused.

## Main definitions

* `Duration.Fields` — days, hours, minutes, seconds and units of 100 nanoseconds.
* `Duration.SpanOf` — a text is one of a span over a class of numerals, with the fields it has.
* `Duration.SignedDigits` — the numerals that are read.

## Main results

* `Duration.clockOf_iff` — the texts of clock times are those whose fields are read.
* `Duration.Fields.nanos_of_sum` — what fields are summed to is their span.
* `Duration.readMagnitude_eq` — a text over signed digits is read as the sum of its fields.
* `Duration.exists_spanOf` — every other text is refused.
-/

namespace TypedSheets.Duration

/-! ### Texts of spans -/

/-- A class of numerals, each with its number. -/
abbrev Numerals := List Char → Int → Prop

/-- Decimal digits with an optional sign, as long as the number fits 64 bits. -/
def SignedDigits (text : List Char) (n : Int) : Prop :=
  Text.readInt64 10 text = some n

/-- Days, hours, minutes, seconds and units of 100 nanoseconds. -/
structure Fields where
  /-- The days. -/
  days : Int
  /-- The hours. -/
  hours : Int
  /-- The minutes. -/
  minutes : Int
  /-- The seconds. -/
  seconds : Int
  /-- The units of 100 nanoseconds. -/
  ticks : Int

namespace Fields

variable (f : Fields)

/-- The nanoseconds of the clock time. -/
def clock : Int :=
  (f.hours * 3600 + f.minutes * 60 + f.seconds) * nanosPerSecond + f.ticks * 100

/-- The nanoseconds of the span. -/
def nanos : Int :=
  f.days * 86400 * nanosPerSecond + f.clock

/-- The span of the fields, added from the largest unit down. -/
def sum : Except Overflow (Option Duration) :=
  sumFields f.days f.hours f.minutes f.seconds f.ticks

end Fields

section Forms

variable (N : Numerals)

/-- The text of seconds, with an optional fraction of at most seven places. -/
inductive SecondsOf : List Char → Int → Int → Prop
  /-- Whole seconds. -/
  | whole {s : List Char} {n : Int} (seconds : N s n) (bound : n ≤ 59) : SecondsOf s n 0
  /-- Seconds and a fraction, of which the places that are left out are zeros. -/
  | fraction {s places : List Char} {n ticks : Int} (seconds : N s n) (bound : n ≤ 59)
    (width : places.length ≤ 7) (fraction : N (Text.padRight 7 places) ticks) :
    SecondsOf (s ++ '.' :: places) n ticks

/-- The text of a clock time: hours and minutes, and seconds if they are given. -/
inductive ClockOf : List Char → Fields → Prop
  /-- Without seconds. -/
  | minutes {h m : List Char} {a b : Int} (hours : N h a) (hbound : a ≤ 23) (minutes : N m b)
    (mbound : b ≤ 59) : ClockOf (h ++ ':' :: m) ⟨0, a, b, 0, 0⟩
  /-- With seconds. -/
  | seconds {h m s : List Char} {a b c t : Int} (hours : N h a) (hbound : a ≤ 23)
    (minutes : N m b) (mbound : b ≤ 59) (seconds : SecondsOf N s c t) :
    ClockOf (h ++ ':' :: (m ++ ':' :: s)) ⟨0, a, b, c, t⟩

/-- The text of a span without a sign in front: a number of whole days in digits, or a clock time,
or days and a clock time with a point between them. -/
inductive SpanOf : List Char → Fields → Prop
  /-- Whole days. -/
  | days {d : List Char} {n : Int} (digits : ∀ c ∈ d, c.isDigit = true) (days : N d n) :
    SpanOf d ⟨n, 0, 0, 0, 0⟩
  /-- A clock time. -/
  | clock {text : List Char} {f : Fields} (clock : ClockOf N text f) : SpanOf text f
  /-- Days and a clock time. -/
  | daysAndClock {d text : List Char} {n : Int} {f : Fields} (days : N d n)
    (clock : ClockOf N text f) : SpanOf (d ++ '.' :: text) { f with days := n }

end Forms

/-! ### Reading over signed digits -/

theorem SignedDigits.mark {text : List Char} {n : Int} (h : SignedDigits text n) {c : Char}
    (hc : c ∈ text) : c.isDigit = true ∨ c = '+' ∨ c = '-' :=
  Text.mark_of_mem_readInt (Option.filter_eq_some_iff.1 h).1 hc

/-- The marks between fields do not stand in numerals. -/
theorem SignedDigits.not_mem {text : List Char} {n : Int} (h : SignedDigits text n) {c : Char}
    (hc : c = '.' ∨ c = ':') : c ∉ text := by
  intro hmem
  rcases h.mark hmem with hdigit | rfl | rfl
  · rcases hc with rfl | rfl <;> cases hdigit
  · rcases hc with h | h <;> cases h
  · rcases hc with h | h <;> cases h

theorem length_le_byteLength (text : List Char) : text.length ≤ byteLength text := by
  induction text with
  | nil => exact Nat.le_refl 0
  | cons c text ih =>
    have hpos := c.utf8Size_pos
    rw [byteLength, List.foldr_cons, ← byteLength, List.length_cons]
    omega

/-- Every character of a numeral takes one byte. -/
theorem byteLength_of_padRight {places : List Char} {t : Int}
    (h : SignedDigits (Text.padRight 7 places) t) : byteLength places = places.length := by
  have hsize {c : Char} (hc : c ∈ places) : c.utf8Size = 1 := by
    rcases h.mark (List.mem_append_left _ hc) with hdigit | rfl | rfl
    · exact Char.utf8Size_eq_one_iff.2 (Nat.le_of_lt_succ (Text.toNat_lt_of_isDigit hdigit))
    all_goals rfl
  clear h
  induction places with
  | nil => rfl
  | cons c places ih =>
    rw [byteLength, List.foldr_cons, ← byteLength, hsize List.mem_cons_self,
      ih fun hc => hsize (List.mem_cons_of_mem c hc), List.length_cons, Nat.add_comm]

/-- A fraction is read as its places, those left out being zeros; no places are all zeros. -/
theorem readTicks_eq (places : List Char) :
    readTicks places = Text.readInt64 10 (Text.padRight 7 places) := by
  unfold readTicks
  split
  · rename_i h
    rw [List.isEmpty_iff.1 h]
    decide
  · rfl

/-- How the seconds of a clock are read. -/
theorem secondsOf_iff {text : List Char} {c t : Int} :
    SecondsOf SignedDigits text c t ↔
      ∃ whole places, (Text.cutAt '.' text).getD (text, []) = (whole, places) ∧
        Text.readInt64 10 whole = some c ∧ c ≤ 59 ∧ byteLength places ≤ 7 ∧
        readTicks places = some t := by
  constructor
  · intro h
    cases h with
    | whole hs hbound =>
      refine ⟨text, [], ?_, hs, hbound, Nat.zero_le 7, rfl⟩
      rw [Text.cutAt_of_not_mem (hs.not_mem (.inl rfl))]
      rfl
    | @fraction s places n ticks hs hbound hwidth hticks =>
      refine ⟨s, places, ?_, hs, hbound, ?_, ?_⟩
      · rw [Text.cutAt_append_cons (hs.not_mem (.inl rfl))]
        rfl
      · rwa [byteLength_of_padRight hticks]
      · rw [readTicks_eq]
        exact hticks
  · rintro ⟨whole, places, hcut, hwhole, hbound, hwidth, hticks⟩
    cases hat : Text.cutAt '.' text with
    | none =>
      rw [hat] at hcut
      cases hcut
      cases hticks
      exact .whole hwhole hbound
    | some sides =>
      rw [hat] at hcut
      obtain rfl : sides = (whole, places) := hcut
      rw [Text.eq_of_cutAt hat]
      rw [readTicks_eq] at hticks
      exact .fraction hwhole hbound ((length_le_byteLength places).trans hwidth) hticks

/-- How the fields of a clock are read, once its parts are known. -/
theorem clockFields_eq_some_iff {clock : List Char} {a b c t : Int} :
    clockFields clock = some (a, b, c, t) ↔
      ∃ h m s, clockParts clock = some (h, m, s) ∧ SignedDigits h a ∧ a ≤ 23 ∧
        SignedDigits m b ∧ b ≤ 59 ∧ SecondsOf SignedDigits s c t := by
  simp only [secondsOf_iff, SignedDigits]
  unfold clockFields
  simp only [Option.bind_eq_bind, Option.bind_eq_some_iff]
  constructor
  · rintro ⟨⟨h, m, s⟩, hparts, a', ha, b', hb, hrest⟩
    obtain ⟨c', hc, hrest⟩ := hrest
    split at hrest
    · cases hrest
    · rename_i hbounds
      simp only [Bool.or_eq_true, decide_eq_true_eq, not_or, Int.not_lt, Nat.not_lt] at hbounds
      obtain ⟨t', ht, hrest⟩ := Option.bind_eq_some_iff.1 hrest
      cases hrest
      exact ⟨h, m, s, hparts, ha, hbounds.1.1.1, hb, hbounds.1.1.2, _, _, rfl, hc,
        hbounds.1.2, hbounds.2, ht⟩
  · rintro ⟨h, m, s, hparts, ha, habound, hb, hbbound, whole, places, hcut, hc, hcbound, hwidth,
      ht⟩
    refine ⟨(h, m, s), hparts, a, ha, b, hb, ?_⟩
    dsimp only
    rw [hcut]
    refine ⟨c, hc, ?_⟩
    rw [if_neg (by simp only [Bool.or_eq_true, decide_eq_true_eq]; omega), ht]
    rfl

/-- **How the fields of a clock are read.** -/
theorem clockOf_iff {clock : List Char} {f : Fields} :
    ClockOf SignedDigits clock f ↔
      f.days = 0 ∧ clockFields clock = some (f.hours, f.minutes, f.seconds, f.ticks) := by
  rw [clockFields_eq_some_iff]
  constructor
  · intro h
    cases h with
    | @minutes h m a b hh hhbound hm hmbound =>
      refine ⟨rfl, h, m, ['0'], ?_, hh, hhbound, hm, hmbound,
        .whole rfl (show (0 : Int) ≤ 59 by decide)⟩
      rw [clockParts, Text.cutAll_append_cons (hh.not_mem (.inr rfl)),
        Text.cutAll_of_not_mem (hm.not_mem (.inr rfl))]
    | @seconds h m s a b c t hh hhbound hm hmbound hs =>
      refine ⟨rfl, h, m, s, ?_, hh, hhbound, hm, hmbound, hs⟩
      have hcolon : ':' ∉ s := by
        cases hs with
        | whole hs _ => exact hs.not_mem (.inr rfl)
        | fraction hs _ _ hticks =>
          simp only [List.mem_append, List.mem_cons, not_or]
          exact ⟨hs.not_mem (.inr rfl), by decide,
            fun hmem => hticks.not_mem (.inr rfl) (List.mem_append_left _ hmem)⟩
      rw [clockParts, Text.cutAll_append_cons (hh.not_mem (.inr rfl)),
        Text.cutAll_append_cons (hm.not_mem (.inr rfl)), Text.cutAll_of_not_mem hcolon]
  · obtain ⟨days, a, b, c, t⟩ := f
    rintro ⟨rfl, h, m, s, hparts, hh, hhbound, hm, hmbound, hs⟩
    unfold clockParts at hparts
    split at hparts
    · rename_i h' m' hcut
      cases hparts
      obtain ⟨hnil, -⟩ | ⟨after, rfl, hafter⟩ := Text.eq_of_cutAll hcut
      · cases hnil
      · rw [Text.eq_of_cutAll_singleton hafter]
        obtain ⟨whole, places, hzero, hwhole, -, -, hplaces⟩ := secondsOf_iff.1 hs
        cases hzero
        cases hwhole
        cases hplaces
        exact .minutes hh hhbound hm hmbound
    · rename_i h' m' s' hcut
      cases hparts
      obtain ⟨hnil, -⟩ | ⟨after, rfl, hafter⟩ := Text.eq_of_cutAll hcut
      · cases hnil
      · obtain ⟨hnil, -⟩ | ⟨last, rfl, hlast⟩ := Text.eq_of_cutAll hafter
        · cases hnil
        · rw [Text.eq_of_cutAll_singleton hlast]
          exact .seconds hh hhbound hm hmbound hs
    · cases hparts

/-! ### Reading whole texts -/

theorem readMagnitude_digits {text : List Char} (h : ∀ c ∈ text, c.isDigit = true) :
    readMagnitude text =
      .ok ((Text.readInt64 10 text).bind fun days => ofSeconds? (days * 86400)) := by
  rw [readMagnitude, if_pos (List.all_eq_true.2 h)]

/-- A clock time has a colon in front of its first point. -/
theorem ClockOf.cutAt {text : List Char} {f : Fields} (h : ClockOf SignedDigits text f) :
    ¬ text.all Char.isDigit ∧ (Text.cutAt '.' text = none ∨
      ∃ before after, Text.cutAt '.' text = some (before, after) ∧ before.contains ':' = true) := by
  obtain ⟨hours, rest, rfl, hhours⟩ : ∃ hours rest, text = hours ++ ':' :: rest ∧ '.' ∉ hours := by
    cases h with
    | minutes hh _ _ _ => exact ⟨_, _, rfl, hh.not_mem (.inl rfl)⟩
    | seconds hh _ _ _ _ => exact ⟨_, _, rfl, hh.not_mem (.inl rfl)⟩
  refine ⟨fun hall => ?_, ?_⟩
  · cases List.all_eq_true.1 hall ':' (by simp)
  by_cases hrest : '.' ∈ rest
  · obtain ⟨before, after, rfl, hbefore⟩ := List.eq_append_cons_of_mem hrest
    refine .inr ⟨hours ++ ':' :: before, after, ?_, by simp⟩
    rw [← List.cons_append, ← List.append_assoc, Text.cutAt_append_cons (by simp [hhours, hbefore])]
  · exact .inl (Text.cutAt_of_not_mem (by simp [hhours, hrest]))

theorem readMagnitude_clock_eq {text : List Char} {f : Fields}
    (h : ClockOf SignedDigits text f) : readMagnitude text = f.sum := by
  obtain ⟨hall, hcut⟩ := h.cutAt
  obtain ⟨hdays, hfields⟩ := clockOf_iff.1 h
  rw [readMagnitude, if_neg hall, Fields.sum, hdays]
  rcases hcut with hcut | ⟨before, after, hcut, hcolon⟩
  · simp only [hcut, hfields]
  · simp only [hcut, hcolon, if_true, hfields]

/-- Behind a point that has no colon in front of it a clock is read by itself. -/
theorem readMagnitude_point {days clock : List Char} (hpoint : '.' ∉ days) (hcolon : ':' ∉ days) :
    readMagnitude (days ++ '.' :: clock) =
      match Text.readInt64 10 days, clockFields clock with
      | some n, some (a, b, c, t) => sumFields n a b c t
      | _, _ => .ok none := by
  have hall : ¬ (days ++ '.' :: clock).all Char.isDigit :=
    fun hall => by cases List.all_eq_true.1 hall '.' (by simp)
  have hcontains : days.contains ':' = false := by
    rwa [List.contains_eq_mem, decide_eq_false_iff_not]
  rw [readMagnitude, if_neg hall, Text.cutAt_append_cons hpoint]
  simp only [hcontains, Bool.false_eq_true, if_false]
  cases Text.readInt64 10 days with
  | none => rfl
  | some n =>
    simp only [Option.map_some]
    cases clockFields clock with
    | none => rfl
    | some fields => rfl

/-! ### Sums -/

theorem add?_zero (a : Duration) : a.add? zero = some a := by
  have hsum : a.nanos + zero.nanos = a.nanos := Int.add_zero _
  rw [add?, hsum]
  exact dif_pos ⟨a.lower, a.upper⟩

/-- Days alone are summed to the days. -/
theorem sum_days (n : Int) : (⟨n, 0, 0, 0, 0⟩ : Fields).sum = .ok (ofSeconds? (n * 86400)) := by
  have hzero (a : Duration) : plus a (some zero) = .ok (some a) := by
    unfold plus
    dsimp only
    rw [add?_zero]
  unfold Fields.sum
  cases hdays : ofSeconds? (n * 86400) with
  | none =>
    unfold sumFields
    dsimp only
    rw [hdays]
  | some a =>
    exact (sumFields_of_plus n 0 0 0 0 hdays (hzero a) (hzero a) (hzero a)).trans (hzero a)

theorem nanos_of_ofNanos? {n : Int} {d : Duration} (h : ofNanos? n = some d) : d.nanos = n := by
  unfold ofNanos? at h
  split at h
  · cases h
    rfl
  · cases h

theorem nanos_of_plus {a c : Duration} {b : Option Duration} (h : plus a b = .ok (some c)) :
    ∃ b', b = some b' ∧ c.nanos = a.nanos + b'.nanos := by
  unfold plus at h
  split at h
  · cases h
  · rename_i b'
    split at h
    · rename_i c' hc
      cases h
      exact ⟨b', rfl, nanos_of_ofNanos? hc⟩
    · cases h

/-- What fields are summed to is their span. -/
theorem Fields.nanos_of_sum {f : Fields} {d : Duration} (h : f.sum = .ok (some d)) :
    d.nanos = f.nanos := by
  unfold sum sumFields at h
  split at h
  · cases h
  · rename_i a hdays
    obtain ⟨b, hhours, h⟩ := Except.exists_of_bind_ok h
    cases b with
    | none => cases h
    | some b =>
      obtain ⟨c, hminutes, h⟩ := Except.exists_of_bind_ok h
      cases c with
      | none => cases h
      | some c =>
        obtain ⟨e, hseconds, h⟩ := Except.exists_of_bind_ok h
        cases e with
        | none => cases h
        | some e =>
          obtain ⟨x, hx, hb⟩ := nanos_of_plus hhours
          obtain ⟨y, hy, hc⟩ := nanos_of_plus hminutes
          obtain ⟨z, hz, he⟩ := nanos_of_plus hseconds
          obtain ⟨t, ht, hd⟩ := nanos_of_plus h
          have ha := nanos_of_ofNanos? hdays
          have hx := nanos_of_ofNanos? hx
          have hy := nanos_of_ofNanos? hy
          have hz := nanos_of_ofNanos? hz
          have ht := nanos_of_ofNanos? ht
          unfold nanos clock
          unfold nanosPerSecond at *
          omega

/-! ### What is read -/

/-- A text over signed digits is read as the sum of its fields. -/
theorem readMagnitude_eq {text : List Char} {f : Fields} (h : SpanOf SignedDigits text f) :
    readMagnitude text = f.sum := by
  cases h with
  | @days _ n hdigits hd =>
    rw [readMagnitude_digits hdigits, sum_days, show Text.readInt64 10 text = some n from hd]
    rfl
  | clock h => exact readMagnitude_clock_eq h
  | @daysAndClock d clock n f hd hc =>
    rw [readMagnitude_point (hd.not_mem (.inl rfl)) (hd.not_mem (.inr rfl)),
      show Text.readInt64 10 d = some n from hd, (clockOf_iff.1 hc).2]
    rfl

/-- Every other text is refused. -/
theorem exists_spanOf {text : List Char} (h : readMagnitude text ≠ .ok none) :
    ∃ f, SpanOf SignedDigits text f := by
  have hclock (clock : List Char) (h : clockFields clock ≠ none) :
      ∃ f, ClockOf SignedDigits clock f := by
    obtain ⟨⟨a, b, c, t⟩, hfields⟩ := Option.ne_none_iff_exists'.1 h
    exact ⟨⟨0, a, b, c, t⟩, clockOf_iff.2 ⟨rfl, hfields⟩⟩
  by_cases hall : ∀ c ∈ text, c.isDigit = true
  · rw [readMagnitude_digits hall] at h
    cases hread : Text.readInt64 10 text with
    | none =>
      rw [hread] at h
      exact absurd rfl h
    | some n => exact ⟨_, .days hall hread⟩
  · by_cases hsplit : ∃ days clock, text = days ++ '.' :: clock ∧ '.' ∉ days ∧ ':' ∉ days
    · obtain ⟨days, clock, rfl, hpoint, hcolon⟩ := hsplit
      rw [readMagnitude_point hpoint hcolon] at h
      cases hread : Text.readInt64 10 days with
      | none =>
        rw [hread] at h
        exact absurd rfl h
      | some n =>
        obtain ⟨f, hf⟩ := hclock clock fun hnone => by
          rw [hread, hnone] at h
          exact h rfl
        exact ⟨_, .daysAndClock hread hf⟩
    · obtain ⟨f, hf⟩ := hclock text fun hnone => h <| by
        rw [readMagnitude, if_neg (by simpa using hall)]
        cases hcut : Text.cutAt '.' text with
        | none => simp only [hnone]
        | some sides =>
          obtain ⟨days, clock⟩ := sides
          have hcolon : days.contains ':' = true := by
            by_contra hno
            refine hsplit ⟨days, clock, Text.eq_of_cutAt hcut, Text.not_mem_of_cutAt hcut, ?_⟩
            simpa using hno
          simp only [hcolon, if_true, hnone]
      exact ⟨f, .clock hf⟩

end TypedSheets.Duration
