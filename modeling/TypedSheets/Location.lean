import TypedSheets.Text.Numeral

/-!
# Locations

Where a value, a column or a definition came from: a sheet of a file, and a row of it if the place
is as narrow as that.

## Main definitions

* `Location` — the place.
* `Location.text` — `file:sheet` or `file:sheet:row`.
-/

namespace TypedSheets

/-- A sheet of a file, or one of its rows. -/
structure Location where
  /-- The file. -/
  file : String
  /-- The sheet of the file. -/
  sheet : String
  /-- The row of the sheet, if the place is one row. -/
  row : Option Nat
deriving DecidableEq, Inhabited

namespace Location

/-- A row of the sheet of a location. -/
def atRow (l : Location) (row : Nat) : Location :=
  { l with row := some row }

/-- The text `file:sheet` or `file:sheet:row`. -/
def text (l : Location) : String :=
  match l.row with
  | some row => l.file ++ ":" ++ l.sheet ++ ":" ++ Text.natText row
  | none => l.file ++ ":" ++ l.sheet

end Location

end TypedSheets
