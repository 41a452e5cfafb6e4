import TypedSheets.Text.Cut
import TypedSheets.Text.Numeral
import TypedSheets.Text.Blank

/-!
# Durations

Signed spans of time in whole nanoseconds, bounded by 2⁶³ - 1 milliseconds to either side, their
texts, and the reading of clock texts.

## Main definitions

* `Duration` — a span of time within the bounds.
* `Duration.add?`, `Duration.neg` — arithmetic; a sum may leave the bounds.
* `Duration.text` — `[-][d.]hh:mm:ss[.fffffff]`.
* `Duration.isoText` — `PT…S`.
* `Duration.read` — the span a text of days and clock time denotes.

## Design

Reading can go wrong in two ways that stay apart: a text that denotes no span gives `none`, and a
text whose parts are spans but whose sum leaves the bounds gives `Overflow`.
-/

namespace TypedSheets

/-- Nanoseconds in a second. -/
def nanosPerSecond : Nat := 1000000000

/-- The greatest number of nanoseconds in a span: 2⁶³ - 1 milliseconds. -/
def maxDurationNanos : Int := 9223372036854775807 * 1000000

/-- A span of time in nanoseconds, at most 2⁶³ - 1 milliseconds long to either side. -/
structure Duration where
  /-- The signed number of nanoseconds. -/
  nanos : Int
  /-- The span is not shorter than the least one. -/
  lower : -maxDurationNanos ≤ nanos
  /-- The span is not longer than the greatest one. -/
  upper : nanos ≤ maxDurationNanos
deriving DecidableEq

namespace Duration

instance : Hashable Duration := ⟨fun d => hash d.nanos⟩

/-- The empty span. -/
def zero : Duration := ⟨0, by decide, by decide⟩

instance : Inhabited Duration := ⟨zero⟩

/-- The span of a number of nanoseconds, if it lies within the bounds. -/
def ofNanos? (n : Int) : Option Duration :=
  if h : -maxDurationNanos ≤ n ∧ n ≤ maxDurationNanos then some ⟨n, h.1, h.2⟩ else none

/-- The span of a number of seconds, if it lies within the bounds. -/
def ofSeconds? (n : Int) : Option Duration :=
  ofNanos? (n * nanosPerSecond)

/-- The sum of two spans, if it lies within the bounds. -/
def add? (a b : Duration) : Option Duration :=
  ofNanos? (a.nanos + b.nanos)

/-- The span to the other side. -/
def neg (d : Duration) : Duration :=
  ⟨-d.nanos, Int.neg_le_neg d.upper, by have := d.lower; omega⟩

/-! ### Texts -/

/-- A numeral of at least `width` digits. -/
def padded (width n : Nat) : List Char :=
  Text.padLeft width (Text.decimal n)

/-- The text `[-][d.]hh:mm:ss[.fffffff]`; what is finer than 100 nanoseconds is left out. -/
def text (d : Duration) : String :=
  let total := d.nanos.natAbs
  let seconds := total / nanosPerSecond
  let ticks := total % nanosPerSecond / 100
  let days := seconds / 86400
  String.ofList <|
    (if d.nanos < 0 then ['-'] else []) ++
    (if 0 < days then Text.decimal days ++ ['.'] else []) ++
    padded 2 (seconds / 3600 % 24) ++ ':' :: padded 2 (seconds / 60 % 60) ++
    ':' :: padded 2 (seconds % 60) ++
    (if 0 < ticks then '.' :: padded 7 ticks else [])

/-- A fraction of a second in nanoseconds, without the zeros at its end. -/
def fractionDigits (nanos : Nat) : List Char :=
  ((padded 9 nanos).reverse.dropWhile (· == '0')).reverse

/-- The text `PT…S` in seconds, with `-` in front of a negative span and `P0D` for the empty
one. -/
def isoText (d : Duration) : String :=
  let total := d.nanos.natAbs
  let seconds := total / nanosPerSecond
  let fraction := total % nanosPerSecond
  if total = 0 then "P0D"
  else String.ofList <|
    (if d.nanos < 0 then ['-'] else []) ++ ['P', 'T'] ++ Text.decimal seconds ++
    (if fraction = 0 then [] else '.' :: fractionDigits fraction) ++ ['S']

/-! ### Reading -/

/-- A sum of spans left the bounds. -/
inductive Overflow where
  | sum
deriving DecidableEq, Inhabited

/-- The text of a sum that left the bounds. -/
def Overflow.message (_ : Overflow) : String :=
  "`TimeDelta + TimeDelta` overflowed"

/-- The parts of a clock text: hours, minutes and seconds as texts, seconds being optional. -/
def clockParts (clock : List Char) : Option (List Char × List Char × List Char) :=
  match Text.cutAll ':' clock with
  | [h, m] => some (h, m, ['0'])
  | [h, m, s] => some (h, m, s)
  | _ => none

/-- A fraction of a second of at most seven characters, in units of 100 nanoseconds. -/
def readTicks (fraction : List Char) : Option Int :=
  if fraction.isEmpty then some 0 else Text.readInt64 10 (Text.padRight 7 fraction)

/-- The number of bytes of a text. -/
def byteLength (text : List Char) : Nat :=
  text.foldr (fun c n => c.utf8Size + n) 0

/-- The sum of a span and an optional one: nothing if there is no second span, an overflow if
the sum leaves the bounds. -/
def plus (a : Duration) (b : Option Duration) : Except Overflow (Option Duration) :=
  match b with
  | none => .ok none
  | some b => match a.add? b with
    | some c => .ok (some c)
    | none => .error .sum

/-- The fields of a clock text, each a signed number with an upper bound: hours, minutes, seconds
and units of 100 nanoseconds. -/
def clockFields (clock : List Char) : Option (Int × Int × Int × Int) := do
  let (h, m, s) ← clockParts clock
  let hours ← Text.readInt64 10 h
  let minutes ← Text.readInt64 10 m
  let (whole, fraction) := (Text.cutAt '.' s).getD (s, [])
  let seconds ← Text.readInt64 10 whole
  if 23 < hours || 59 < minutes || 59 < seconds || 7 < byteLength fraction then none
  else
    let ticks ← readTicks fraction
    return (hours, minutes, seconds, ticks)

/-- The sum of days, hours, minutes, seconds and units of 100 nanoseconds, added from the largest
unit down. -/
def sumFields (days hours minutes seconds ticks : Int) : Except Overflow (Option Duration) :=
  match ofSeconds? (days * 86400) with
  | none => .ok none
  | some total => do
    let some total ← plus total (ofSeconds? (hours * 3600)) | return none
    let some total ← plus total (ofSeconds? (minutes * 60)) | return none
    let some total ← plus total (ofSeconds? seconds) | return none
    plus total (ofNanos? (ticks * 100))

/-- The span of a text without sign: whole days, or a clock time with optional days before a
point. -/
def readMagnitude (text : List Char) : Except Overflow (Option Duration) :=
  if text.all Char.isDigit then
    .ok ((Text.readInt64 10 text).bind fun days => ofSeconds? (days * 86400))
  else
    let split : Option (Int × List Char) :=
      match Text.cutAt '.' text with
      | some (days, clock) =>
        if days.contains ':' then some (0, text)
        else (Text.readInt64 10 days).map fun n => (n, clock)
      | none => some (0, text)
    match split with
    | none => .ok none
    | some (days, clock) =>
      match clockFields clock with
      | none => .ok none
      | some (hours, minutes, seconds, ticks) => sumFields days hours minutes seconds ticks

/-- The span of a text: a space counts as a point, and a sign in front turns the span around. -/
def read (text : List Char) : Except Overflow (Option Duration) :=
  let text := (Text.trim text).map fun c => if c = ' ' then '.' else c
  match text with
  | '-' :: rest => (readMagnitude rest).map (·.map neg)
  | _ => readMagnitude text

end Duration

end TypedSheets
