import TypedSheets.Decimal.Double
import TypedSheets.Text.Blank

/-!
# Numbers in cells

The integers that cells denote: hexadecimal numerals behind `0x`, decimal numerals, and decimal
fractions that are equal to an integer. A fraction whose value rounds to the first power of two
beyond 64 bits counts as the greatest number.

## Main definitions

* `Text.readSigned`, `Text.readUnsigned` — the integers of signed and unsigned types.
-/

namespace TypedSheets.Text

/-- The integer a decimal fraction is equal to, if it lies between the bounds. -/
def readWhole (least greatest : Int) (text : List Char) : Option Int :=
  ((Double.read text).bind Double.toInt?).filter fun n => least ≤ n && n ≤ greatest

/-- The signed integer of 64 bits that a text denotes. -/
def readSigned (text : List Char) : Option Int :=
  let text := trim text
  match stripHexMark text with
  | some digits => readInt64 16 digits
  | none =>
    match readInt64 10 text with
    | some n => some n
    | none => (readWhole minInt64 (maxInt64 + 1) text).map (min · maxInt64)

/-- The unsigned integer of 64 bits that a text denotes. -/
def readUnsigned (text : List Char) : Option Nat :=
  let text := trim text
  match stripHexMark text with
  | some digits => readNat64 16 digits
  | none =>
    match readNat64 10 text with
    | some n => some n
    | none => (readWhole 0 (maxNat64 + 1) text).map fun n => min n.toNat maxNat64

end TypedSheets.Text
