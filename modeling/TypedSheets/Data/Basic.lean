import TypedSheets.Sheet
import TypedSheets.Sorting
import TypedSheets.Value

/-!
# Cast data

The typed rows of all tables, by the sheets they come from, and the typed constants.

## Main definitions

* `CastRow`, `CastSheet`, `CastConst` — typed rows, the rows of a sheet, and a typed constant.
* `TableData` — all of them.
* `TableData.push` — adds rows of a sheet.
* `TableData.finish` — brings sheets and rows into their final order.
-/

namespace TypedSheets

/-- A typed row; its columns are in the order of the schema. -/
structure CastRow where
  /-- The row of the sheet. -/
  row : Nat
  /-- The values by column. -/
  values : Keyed String Value
deriving Inhabited

/-- The JSON value of a row: an object of its columns. -/
def CastRow.toJson (r : CastRow) : Json :=
  .object (r.values.entries.map fun e => (e.1, e.2.toJson))

/-- The rows of a table that come from one sheet. -/
structure CastSheet where
  /-- The table. -/
  table : String
  /-- The sheet. -/
  location : Location
  /-- The rows. -/
  rows : List CastRow
deriving Inhabited

/-- The place of a row. -/
def CastSheet.locationOf (s : CastSheet) (r : CastRow) : Location :=
  s.location.atRow r.row

/-- A typed constant. -/
structure CastConst where
  /-- The table of constants it belongs to. -/
  table : String
  /-- The name. -/
  name : String
  /-- The type as it is written. -/
  type : String
  /-- The outputs it belongs to. -/
  scope : Scope
  /-- The value. -/
  value : Value
  /-- The sheet that declares it. -/
  location : Location
deriving Inhabited

/-- The JSON value of a constant. -/
def CastConst.toJson (c : CastConst) : Json :=
  .object [("table", .string c.table), ("name", .string c.name), ("type", .string c.type),
    ("scope", .string c.scope.name), ("value", c.value.toJson)]

/-- The typed rows of all tables and the typed constants. -/
structure TableData where
  /-- The sheets of each table. -/
  tables : Keyed String (List CastSheet) := .empty
  /-- The constants in order. -/
  consts : List CastConst := []
deriving Inhabited

namespace TableData

/-- Adds rows to the first sheet of their place, or a sheet if there is none. -/
def addChunk (chunk : CastSheet) : List CastSheet → List CastSheet
  | [] => [chunk]
  | s :: sheets =>
    if s.location = chunk.location then { s with rows := s.rows ++ chunk.rows } :: sheets
    else s :: addChunk chunk sheets

/-- Adds rows of a sheet. -/
def push (d : TableData) (chunk : CastSheet) : TableData :=
  { d with tables := d.tables.update chunk.table [] (addChunk chunk) }

/-- Adds a constant. -/
def pushConst (d : TableData) (c : CastConst) : TableData :=
  { d with consts := d.consts ++ [c] }

/-- Sheets in the order of their names, and of their files if they have one name. -/
def sheetBefore (a b : CastSheet) : Bool :=
  if a.location.sheet = b.location.sheet then a.location.file ≤ b.location.file
  else a.location.sheet ≤ b.location.sheet

/-- The rows of a sheet in row order. -/
def sortRows (s : CastSheet) : CastSheet :=
  { s with rows := sortBy (fun a b => a.row ≤ b.row) s.rows }

/-- Brings the sheets of each table and the rows of each sheet into order; sheets and rows that
are equal in it keep theirs. -/
def finish (d : TableData) : TableData :=
  { d with tables := d.tables.mapValues fun sheets => (sortBy sheetBefore sheets).map sortRows }

/-- The sheets of a table. -/
def sheets (d : TableData) (table : String) : List CastSheet :=
  (d.tables.find? table).getD []

/-- The rows of a table, sheet by sheet. -/
def rowsOf (d : TableData) (table : String) : List CastRow :=
  (d.sheets table).flatMap (·.rows)

/-- The number of rows of all tables. -/
def rowCount (d : TableData) : Nat :=
  (d.tables.values.flatMap id).foldr (fun sheet n => sheet.rows.length + n) 0

end TableData

end TypedSheets
