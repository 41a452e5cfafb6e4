import TypedSheets.Decimal.Double

/-!
# Shortest decimal text

The decimal text of a floating-point number: the fewest digits that read back as the number, and
of those the nearest. It is written in full, without an exponent, and without a fractional part
for whole numbers.

## Main definitions

* `Double.shortest` — the digits and the power of ten of the shortest decimal.
* `Double.text` — the text of a number.

## Design

The reals that read as `m * 2 ^ e` form an interval around it, which holds its ends exactly when
`m` is even. A decimal grid of spacing `10 ^ k` meets the interval exactly when one of the two grid
points next to the number lies in it, so the search goes from coarse grids to fine ones and stops at
the first hit. Of two hits the nearer wins, and of two equally near ones the greater.
-/

namespace TypedSheets.Double

/-- The interval of reals that read as a number, over a common denominator. -/
structure Neighbourhood where
  /-- Lower end. -/
  low : Nat
  /-- The number itself. -/
  value : Nat
  /-- Upper end. -/
  high : Nat
  /-- Common denominator. -/
  den : Nat
  /-- Whether the two ends belong to the interval. -/
  closed : Bool

/-- The interval around `m * 2 ^ e`; below a power of two the lower half is half as wide. -/
def neighbourhood (m : Nat) (e : Int) : Neighbourhood :=
  let below := if m = Nat.pow 2 52 && minExponent < e then 1 else 2
  let up := if 2 ≤ e then Nat.pow 2 (e - 2).toNat else 1
  let den := if 2 ≤ e then 1 else Nat.pow 2 (2 - e).toNat
  { low := (4 * m - below) * up, value := 4 * m * up, high := (4 * m + 2) * up, den,
    closed := m % 2 == 0 }

/-- Whether `num / den` lies in the interval. -/
def Neighbourhood.holds (n : Neighbourhood) (num den : Nat) : Bool :=
  let x := num * n.den
  if n.closed then n.low * den ≤ x && x ≤ n.high * den else n.low * den < x && x < n.high * den

/-- The grid point `q * 10 ^ k` chosen among the two neighbours of the number, if one of them lies
in the interval. -/
def Neighbourhood.onGrid (n : Neighbourhood) (k : Int) : Option Nat :=
  let unit := if 0 ≤ k then Nat.pow 10 k.toNat else 1
  let parts := if 0 ≤ k then 1 else Nat.pow 10 (-k).toNat
  let q := n.value * parts / (n.den * unit)
  let rest := n.value * parts % (n.den * unit)
  let down := n.holds (q * unit) parts
  let up := n.holds ((q + 1) * unit) parts
  if up && (!down || n.den * unit ≤ 2 * rest) then some (q + 1)
  else if down then some q
  else none

/-- The first hit on the grids `10 ^ k`, `10 ^ (k - 1)`, …, over the given number of grids. -/
def Neighbourhood.search (n : Neighbourhood) : (grids : Nat) → (k : Int) → Option (Nat × Int)
  | 0, _ => none
  | grids + 1, k =>
    match n.onGrid k with
    | some q => some (q, k)
    | none => n.search grids (k - 1)

/-- The digits `q` and the power `k` of the shortest decimal `q * 10 ^ k` that reads back as
`m * 2 ^ e`, for a positive `m`. Seventeen digits always suffice, and the search starts at most four
powers above the first digit. -/
def shortest (m : Nat) (e : Int) : Nat × Int :=
  let start := ((m.log2 : Int) + e + 1) * 30103 / 100000 + 2
  ((neighbourhood m e).search 24 start).getD (0, 0)

/-- The numeral of `q * 10 ^ k` in full. -/
def positional (q : Nat) (k : Int) : List Char :=
  let digits := Text.decimal q
  if 0 ≤ k then digits ++ List.replicate k.toNat '0'
  else
    let places := (-k).toNat
    let padded := Text.padLeft (places + 1) digits
    padded.take (padded.length - places) ++ '.' :: padded.drop (padded.length - places)

/-- The text of a number. -/
def text : Double → String
  | nan => "NaN"
  | infinite negative => if negative then "-inf" else "inf"
  | finite negative m e =>
    let body := if m = 0 then ['0'] else let (q, k) := shortest m e; positional q k
    String.ofList (if negative then '-' :: body else body)

end TypedSheets.Double
