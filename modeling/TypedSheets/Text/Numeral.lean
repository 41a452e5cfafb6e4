/-!
# Numerals

Integers written with digits of some radix, and the decimal numeral of a number. A numeral has at
least one digit; a sign in front is allowed only where a function says so.

## Main definitions

* `Text.decimal`, `Text.signedDecimal` — the decimal numeral of a number, without leading zeros.
* `Text.padLeft` — a numeral widened with zeros in front.
* `Text.readNat` — the number a run of digits denotes.
* `Text.readInt64`, `Text.readNat64` — signed and unsigned numerals that fit 64 bits.
-/

namespace TypedSheets.Text

/-- The decimal digit of a number below ten. -/
def digitChar (d : Nat) : Char :=
  Char.ofNat (48 + d)

/-- The decimal numeral of a number. -/
def decimal (n : Nat) : List Char :=
  if n < 10 then [digitChar n] else decimal (n / 10) ++ [digitChar (n % 10)]
termination_by n

/-- The decimal numeral of an integer, with `-` in front of a negative one. -/
def signedDecimal : Int → List Char
  | .ofNat n => decimal n
  | .negSucc n => '-' :: decimal (n + 1)

/-- The decimal numeral of a number, as a string. -/
def natText (n : Nat) : String :=
  String.ofList (decimal n)

/-- The decimal numeral of an integer, as a string. -/
def intText (n : Int) : String :=
  String.ofList (signedDecimal n)

/-- The text, with zeros in front of it up to the given width. -/
def padLeft (width : Nat) (text : List Char) : List Char :=
  List.replicate (width - text.length) '0' ++ text

/-- The text, with zeros behind it up to the given width. -/
def padRight (width : Nat) (text : List Char) : List Char :=
  text ++ List.replicate (width - text.length) '0'

/-- The value of a digit in a radix of at most 36; letters count in either case. -/
def digitValue (radix : Nat) (c : Char) : Option Nat :=
  let v :=
    if c.isDigit then some (c.toNat - 48)
    else if c.isLower then some (c.toNat - 97 + 10)
    else if c.isUpper then some (c.toNat - 65 + 10)
    else none
  v.filter (· < radix)

/-- The number that digits denote, continuing from a number read so far. -/
def readDigits (radix : Nat) (soFar : Nat) : List Char → Option Nat
  | [] => some soFar
  | c :: rest => (digitValue radix c).bind fun d => readDigits radix (soFar * radix + d) rest

/-- The number that one or more digits denote. -/
def readNat (radix : Nat) (text : List Char) : Option Nat :=
  if text.isEmpty then none else readDigits radix 0 text

/-- The integer that digits with an optional sign denote. -/
def readInt (radix : Nat) : List Char → Option Int
  | '-' :: rest => (readNat radix rest).map fun n => -(n : Int)
  | '+' :: rest => (readNat radix rest).map Int.ofNat
  | text => (readNat radix text).map Int.ofNat

/-- The least signed number of 64 bits. -/
def minInt64 : Int := -9223372036854775808

/-- The greatest signed number of 64 bits. -/
def maxInt64 : Int := 9223372036854775807

/-- The greatest unsigned number of 64 bits. -/
def maxNat64 : Nat := 18446744073709551615

/-- A signed numeral that fits 64 bits. -/
def readInt64 (radix : Nat) (text : List Char) : Option Int :=
  (readInt radix text).filter fun n => minInt64 ≤ n && n ≤ maxInt64

/-- An unsigned numeral that fits 64 bits; `+` may stand in front. -/
def readNat64 (radix : Nat) (text : List Char) : Option Nat :=
  let digits := match text with
    | '+' :: rest => rest
    | _ => text
  (readNat radix digits).filter (· ≤ maxNat64)

/-- The digits behind a hexadecimal mark, `0x` or `0X`. -/
def stripHexMark : List Char → Option (List Char)
  | '0' :: 'x' :: rest => some rest
  | '0' :: 'X' :: rest => some rest
  | _ => none

end TypedSheets.Text
