import TypedSheets.Moment.Duration

/-!
# Dates and times

Dates of the Gregorian calendar, extended to all years, with a time of day down to the nanosecond,
their texts, and the reading of date texts.

## Main definitions

* `DateTime` — a date with a time of day. A leap second is second 59 with at least 10⁹
  nanoseconds.
* `DateTime.text` — `YYYY-MM-DD hh:mm:ss`.
* `DateTime.read` — the date and time a text denotes.
* `DateTime.afterOrigin` — the moment a span after the first of January of year one.
-/

namespace TypedSheets

/-- A calendar date with a time of day. -/
structure DateTime where
  /-- The year; year zero precedes year one. -/
  year : Int
  /-- The month, from one. -/
  month : Nat
  /-- The day of the month, from one. -/
  day : Nat
  /-- The hour. -/
  hour : Nat
  /-- The minute. -/
  minute : Nat
  /-- The second, at most 59. -/
  second : Nat
  /-- The nanoseconds of the second; 10⁹ and more belong to a leap second. -/
  nanos : Nat
deriving DecidableEq, Hashable, Inhabited

namespace DateTime

/-- The least year of the calendar. -/
def minYear : Int := -262143

/-- The greatest year of the calendar. -/
def maxYear : Int := 262142

/-- Whether a year has 366 days. -/
def isLeapYear (year : Int) : Bool :=
  year % 4 == 0 && (year % 100 != 0 || year % 400 == 0)

/-- The number of days of a month. -/
def daysInMonth (year : Int) (month : Nat) : Nat :=
  if month = 2 then (if isLeapYear year then 29 else 28)
  else if month = 4 || month = 6 || month = 9 || month = 11 then 30
  else 31

/-- Whether a year, a month and a day are a date of the calendar. -/
def isDate (year : Int) (month day : Nat) : Bool :=
  minYear ≤ year && year ≤ maxYear && 1 ≤ month && month ≤ 12 && 1 ≤ day &&
    day ≤ daysInMonth year month

/-! ### Texts -/

/-- A year in at least four digits; a year outside 0 to 9999 has a sign. -/
def yearText (year : Int) : List Char :=
  let digits := Duration.padded 4 year.natAbs
  if 0 ≤ year && year ≤ 9999 then digits
  else if year < 0 then '-' :: digits else '+' :: digits

/-- The text `YYYY-MM-DD`. -/
def dateText (t : DateTime) : List Char :=
  yearText t.year ++ '-' :: Duration.padded 2 t.month ++ '-' :: Duration.padded 2 t.day

/-- The text `hh:mm:ss`; a leap second is second 60. -/
def clockText (t : DateTime) : List Char :=
  let second := if nanosPerSecond ≤ t.nanos then t.second + 1 else t.second
  Duration.padded 2 t.hour ++ ':' :: Duration.padded 2 t.minute ++ ':' :: Duration.padded 2 second

/-- The text `YYYY-MM-DD hh:mm:ss`. -/
def text (t : DateTime) : String :=
  String.ofList (t.dateText ++ ' ' :: t.clockText)

/-- The text with the fraction of the second in three, six or nine digits, as few as are exact. -/
def preciseText (t : DateTime) : String :=
  let nanos := t.nanos % nanosPerSecond
  let fraction :=
    if nanos = 0 then []
    else if nanos % 1000000 = 0 then '.' :: Duration.padded 3 (nanos / 1000000)
    else if nanos % 1000 = 0 then '.' :: Duration.padded 6 (nanos / 1000)
    else '.' :: Duration.padded 9 nanos
  String.ofList (t.dateText ++ ' ' :: t.clockText ++ fraction)

/-! ### Spans after the origin -/

/-- The date that lies a number of days after the first of March of year zero. -/
def ofMarchDay (n : Int) : Int × Nat × Nat :=
  let era := n / 146097
  let dayOfEra := n % 146097
  let yearOfEra :=
    (dayOfEra - dayOfEra / 1460 + dayOfEra / 36524 - dayOfEra / 146096) / 365
  let dayOfYear := dayOfEra - (365 * yearOfEra + yearOfEra / 4 - yearOfEra / 100)
  let marchMonth := (5 * dayOfYear + 2) / 153
  let day := dayOfYear - (153 * marchMonth + 2) / 5 + 1
  let month := if marchMonth < 10 then marchMonth + 3 else marchMonth - 9
  (yearOfEra + era * 400 + (if month ≤ 2 then 1 else 0), month.toNat, day.toNat)

/-- The first moment of the first of January of year one. -/
def origin : DateTime := ⟨1, 1, 1, 0, 0, 0, 0⟩

/-- The moment a span after the origin, if its year is one of the calendar. The origin lies 306 days
after the first of March of year zero. -/
def afterOrigin (d : Duration) : Option DateTime :=
  let nanos := d.nanos % (86400 * nanosPerSecond)
  let days := d.nanos / (86400 * nanosPerSecond)
  let (year, month, day) := ofMarchDay (days + 306)
  let nanos := nanos.toNat
  let seconds := nanos / nanosPerSecond
  if minYear ≤ year && year ≤ maxYear then
    some ⟨year, month, day, seconds / 3600, seconds / 60 % 60, seconds % 60,
      nanos % nanosPerSecond⟩
  else none

/-! ### Reading -/

/-- Reads at most `width` digits, at least one. -/
def readField (width : Nat) (text : List Char) : Option (Nat × List Char) :=
  let digits := (text.take width).takeWhile Char.isDigit
  (Text.readNat 10 digits).map fun n => (n, text.drop digits.length)

/-- A field of one or two digits, blanks before it skipped. -/
def readTwo (text : List Char) : Option (Nat × List Char) :=
  readField 2 (Text.trimStart text)

/-- A year, blanks before it skipped: up to four digits, or a sign and any number of digits. -/
def readYear (text : List Char) : Option (Int × List Char) :=
  match Text.trimStart text with
  | '-' :: rest => (readField rest.length rest).map fun (n, rest) => (-(n : Int), rest)
  | '+' :: rest => (readField rest.length rest).map fun (n, rest) => ((n : Int), rest)
  | rest => (readField 4 rest).map fun (n, rest) => ((n : Int), rest)

/-- What follows a character, if the text starts with it. -/
def expect (c : Char) (text : List Char) : Option (List Char) :=
  Text.stripPrefix [c] text

/-- A date with a separator between year, month and day. -/
def readDate (separator : Char) (text : List Char) : Option ((Int × Nat × Nat) × List Char) := do
  let (year, rest) ← readYear text
  let rest ← expect separator rest
  let (month, rest) ← readTwo rest
  let rest ← expect separator rest
  let (day, rest) ← readTwo rest
  return ((year, month, day), rest)

/-- Hours and minutes with a colon between them. -/
def readHourMinute (text : List Char) : Option ((Nat × Nat) × List Char) := do
  let (hour, rest) ← readTwo text
  let rest ← expect ':' rest
  let (minute, rest) ← readTwo rest
  return ((hour, minute), rest)

/-- A fraction of a second after a point, in nanoseconds; digits beyond the ninth are skipped. -/
def readFraction (text : List Char) : Option (Nat × List Char) :=
  match text with
  | '.' :: rest => do
    let digits := (rest.take 9).takeWhile Char.isDigit
    let n ← Text.readNat 10 digits
    return (n * Nat.pow 10 (9 - digits.length), (rest.drop digits.length).dropWhile Char.isDigit)
  | _ => some (0, text)

/-- The date and time with the given fields, if each lies in its range; second 60 is a leap
second. -/
def ofFields (date : Int × Nat × Nat) (hour minute second nanos : Nat) : Option DateTime :=
  let (year, month, day) := date
  if isDate year month day && hour ≤ 23 && minute ≤ 59 && second ≤ 60 then
    some <| if second = 60 then ⟨year, month, day, hour, minute, 59, nanos + nanosPerSecond⟩
      else ⟨year, month, day, hour, minute, second, nanos⟩
  else none

/-- The fields a form of date text asks for after the date. -/
inductive Clock where
  /-- `hh:mm:ss` with an optional fraction, after a character or a run of blanks. -/
  | seconds (after : Option Char)
  /-- `hh:mm` after a run of blanks. -/
  | minutes
  /-- Nothing. -/
  | absent

/-- The fields of a clock that are left to the end of the text. -/
def readClock (clock : Clock) (text : List Char) : Option (Nat × Nat × Nat × Nat) :=
  match clock with
  | .absent => if text.isEmpty then some (0, 0, 0, 0) else none
  | .minutes => do
    let ((hour, minute), rest) ← readHourMinute (Text.trimStart text)
    if rest.isEmpty then some (hour, minute, 0, 0) else none
  | .seconds after => do
    let rest ← match after with
      | some c => expect c text
      | none => some (Text.trimStart text)
    let ((hour, minute), rest) ← readHourMinute rest
    let rest ← expect ':' rest
    let (second, rest) ← readTwo rest
    let (nanos, rest) ← readFraction rest
    if rest.isEmpty then some (hour, minute, second, nanos) else none

/-- The date and time of a text in one form. -/
def readForm (separator : Char) (clock : Clock) (text : List Char) : Option DateTime := do
  let (date, rest) ← readDate separator text
  let (hour, minute, second, nanos) ← readClock clock rest
  ofFields date hour minute second nanos

/-- The forms of a date text, in the order in which they are tried. -/
def forms : List (Char × Clock) :=
  [('-', .seconds none), ('-', .seconds (some 'T')), ('/', .seconds none), ('-', .minutes),
    ('/', .minutes), ('-', .absent), ('/', .absent)]

/-- The date and time a text denotes, blanks at its ends aside. -/
def read (text : List Char) : Option DateTime :=
  forms.findSome? fun (separator, clock) => readForm separator clock (Text.trim text)

end DateTime

end TypedSheets
