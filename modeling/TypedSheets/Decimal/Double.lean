import TypedSheets.Text.Numeral

/-!
# Binary floating-point numbers

Numbers of the binary format with a 53-bit significand, as exact values: a finite number is a sign,
a natural significand and a power of two. Nothing here depends on machine arithmetic.

## Main definitions

* `Double` — a floating-point number.
* `Double.ofRatio` — the nearest number to a quotient, ties to the even significand.
* `Double.read` — the number a decimal text denotes.
* `Double.toInt?` — the integer a number is equal to.

## Design

A zero is stored with the least exponent, and every other finite number with the least exponent
its significand allows, so that equal numbers of one sign are equal terms.
-/

namespace TypedSheets

/-- A floating-point number: `finite negative m e` stands for `±m * 2 ^ e`. -/
inductive Double where
  | nan
  | infinite (negative : Bool)
  | finite (negative : Bool) (significand : Nat) (exponent : Int)
deriving DecidableEq, Inhabited

namespace Double

/-- The exponent of the smallest numbers. -/
def minExponent : Int := -1074

/-- The exponent of the largest numbers. -/
def maxExponent : Int := 971

/-- `num / den * 2 ^ -e` as a quotient of natural numbers. -/
def scaleBy (num den : Nat) (e : Int) : Nat × Nat :=
  if 0 ≤ e then (num, den * Nat.pow 2 e.toNat) else (num * Nat.pow 2 (-e).toNat, den)

/-- The natural number nearest to `num / den`, a half going to the even neighbour. -/
def roundToEven (num den : Nat) : Nat :=
  let q := num / den
  let r := num % den
  if den < 2 * r || (2 * r == den && q % 2 == 1) then q + 1 else q

/-- The exponent at which `num / den` has a significand of 53 bits, or the least exponent if the
quotient is too small for that. -/
def exponentFor (num den : Nat) : Int :=
  let e : Int := (num.log2 : Int) - (den.log2 : Int) - 52
  let (n, d) := scaleBy num den e
  max (if n < d * Nat.pow 2 52 then e - 1 else e) minExponent

/-- The number nearest to `num / den`, ties to the even significand; too large a quotient is
infinite. -/
def ofRatio (negative : Bool) (num den : Nat) : Double :=
  if num = 0 then finite negative 0 minExponent
  else
    let e := exponentFor num den
    let (n, d) := scaleBy num den e
    let m := roundToEven n d
    let (m, e) := if m = Nat.pow 2 53 then (Nat.pow 2 52, e + 1) else (m, e)
    if maxExponent < e then infinite negative else finite negative m e

/-- The magnitude `m * 2 ^ e` as a quotient of natural numbers. -/
def ratio (m : Nat) (e : Int) : Nat × Nat :=
  if 0 ≤ e then (m * Nat.pow 2 e.toNat, 1) else (m, Nat.pow 2 (-e).toNat)

/-- Whether a number is neither infinite nor undefined. -/
def isFinite : Double → Bool
  | finite .. => true
  | _ => false

/-- The integer a finite number without fractional part is equal to. -/
def toInt? : Double → Option Int
  | finite negative m e =>
    let (n, d) := ratio m e
    if n % d = 0 then some (if negative then -(n / d : Nat) else (n / d : Nat)) else none
  | _ => none

/-- The greatest magnitude of the format with a 24-bit significand. -/
def singleMax : Nat := (Nat.pow 2 24 - 1) * Nat.pow 2 104

/-- Whether the magnitude of a finite number fits the format with a 24-bit significand. -/
def fitsSingle : Double → Bool
  | finite _ m e => let (n, d) := ratio m e; n ≤ singleMax * d
  | _ => false

/-- `digits * 10 ^ e`, to the nearest number. Powers of ten far beyond the format are not
computed. -/
def ofDecimal (negative : Bool) (digits : Nat) (e : Int) : Double :=
  let size : Int := (digits.log2 : Int) * 30103 / 100000 + e
  if digits = 0 then finite negative 0 minExponent
  else if 320 < size then infinite negative
  else if size < -400 then finite negative 0 minExponent
  else if 0 ≤ e then ofRatio negative (digits * Nat.pow 10 e.toNat) 1
  else ofRatio negative digits (Nat.pow 10 (-e).toNat)

/-- Splits off the leading decimal digits. -/
def spanDigits (text : List Char) : List Char × List Char :=
  (text.takeWhile Char.isDigit, text.dropWhile Char.isDigit)

/-- The exponent at the end of a decimal text: nothing, or `e` with an optional sign and digits. -/
def readExponent : List Char → Option Int
  | [] => some 0
  | c :: rest => if c = 'e' || c = 'E' then Text.readInt 10 rest else none

/-- A decimal text without sign: digits with an optional point among, before or behind them, and
an optional exponent; or a word for an infinite or undefined number in any case. -/
def readUnsigned (negative : Bool) (text : List Char) : Option Double :=
  let word := String.ofList (text.map Char.toLower)
  if word = "inf" || word = "infinity" then some (infinite negative)
  else if word = "nan" then some nan
  else
    let (whole, rest) := spanDigits text
    let (fraction, rest) := match rest with
      | '.' :: rest => spanDigits rest
      | _ => ([], rest)
    if whole.isEmpty && fraction.isEmpty then none
    else do
      let e ← readExponent rest
      let digits ← Text.readDigits 10 0 (whole ++ fraction)
      return ofDecimal negative digits (e - fraction.length)

/-- The number a decimal text denotes, rounded to nearest. -/
def read : List Char → Option Double
  | '-' :: rest => readUnsigned true rest
  | '+' :: rest => readUnsigned false rest
  | text => readUnsigned false text

end Double

end TypedSheets
