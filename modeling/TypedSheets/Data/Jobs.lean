import TypedSheets.Chunks
import TypedSheets.Pool
import TypedSheets.Session.Basic

/-!
# Casting jobs

The casting of a workbook, cut into jobs: the rows of a tier of a sheet, a number of them at a time,
and the constants one by one. A row of the normal tier of a sheet with a bold tier belongs to the
nearest bold row above it and holds the key of that row in a generated column.

## Main definitions

* `CastJob`, `castJobs` — the jobs of a workbook.
* `Session.castRows`, `Session.castConst` — the work on a job.
* `TableData.ofOutputs` — the data put together from the outputs of all jobs.
-/

namespace TypedSheets

/-- A unit of casting work. -/
inductive CastJob where
  | rows (sheet : Sheet) (bold : Bool) (rows : List Nat)
  | const (c : Constant)

/-- What a job puts out. -/
inductive CastOutput where
  | rows (sheet : CastSheet)
  | const (c : CastConst)

/-- The jobs of a sheet: the bold tier first. -/
def sheetJobs (size : Nat) (sheet : Sheet) : List CastJob :=
  [true, false].flatMap fun bold => (chunksOf size (sheet.rowsOf bold)).map (.rows sheet bold)

/-- The jobs of a workbook: tables in the order of the input, their sheets in the order of their
names, and then the constants. -/
def castJobs (w : Workbook) (size : Nat) : List CastJob :=
  (w.tables.values.flatMap fun sheets =>
    (sortBy (fun a b => a.location.sheet ≤ b.location.sheet) sheets).flatMap (sheetJobs size)) ++
  w.consts.map .const

namespace Session

/-- The table a tier of a sheet is cast into. -/
def target? (s : Session) (sheet : Sheet) (bold : Bool) : Option Schema :=
  s.schemas.find? (if bold then s.settings.parentTable sheet.table else sheet.table)

/-- The key of the nearest bold row above a row. -/
def parentCell? (s : Session) (sheet : Sheet) (row : Nat) : Option Cell := do
  let parent ← s.target? sheet true
  let key ← parent.primaryKey?
  let column ← sheet.column? true key.name
  column.cells.lastBefore? row

/-- The cell of a row that goes into a column, if the row has one: the key of the bold row above
for the generated column, and else the cell of the column of that name, which may be empty. -/
def sourceCell? (s : Session) (sheet : Sheet) (bold : Bool) (row : Nat) (column : String) :
    Option Cell :=
  if !bold && sheet.hasBold && column == s.settings.parentColumn then s.parentCell? sheet row
  else some (((sheet.column? bold column).bind (·.cells.get? row)).getD .null)

/-- A row without a bold row above it. -/
def missingParent (sheet : Sheet) (row : Nat) : Diagnostic :=
  .unresolved
    ("row " ++ Text.natText row ++ " of table '" ++ sheet.table ++ "' has no bold row above it")
    (sheet.location.atRow row)

/-- The value of a column in a row, or what is wrong with it. -/
def castColumn (s : Session) (schema : Schema) (sheet : Sheet) (bold : Bool) (row : Nat)
    (column : SchemaColumn) : Attempt (Except Diagnostic (String × Value)) :=
  match s.sourceCell? sheet bold row column.name with
  | none => pure (.error (missingParent sheet row))
  | some cell => do
    match ← (s.defs.cast column.type cell).result with
    | .ok v => pure (.ok (column.name, v))
    | .error f =>
      let d : Diagnostic := { failure := f, location := some (sheet.location.atRow row) }
      pure (.error (d.about schema.name column.name))

/-- The values of a row, and what is wrong with them. -/
def castRow (s : Session) (schema : Schema) (sheet : Sheet) (bold : Bool) (row : Nat) :
    Attempt (List Diagnostic × CastRow) := do
  let results ← schema.columns.values.mapM (s.castColumn schema sheet bold row)
  return (Attempt.failures results, { row, values := Keyed.ofList (Attempt.successes results) })

/-- The work on rows of a tier. -/
def castRows (s : Session) (sheet : Sheet) (bold : Bool) (rows : List Nat) :
    Attempt (Outcome CastOutput) :=
  match s.target? sheet bold with
  | none =>
    pure <| .rejected
      [.unresolved ("table '" ++ sheet.table ++ "' has no resolved schema") sheet.location]
  | some schema => do
    let results ← rows.mapM (s.castRow schema sheet bold)
    let diagnostics := results.flatMap Prod.fst
    if diagnostics.isEmpty then
      return .success [.rows
        { table := schema.name, location := sheet.location, rows := results.map Prod.snd }]
    else return .rejected diagnostics

/-- The work on a constant. -/
def castConst (s : Session) (c : Constant) : Attempt (Outcome CastOutput) := do
  match ← (s.defs.cast c.type c.value).result with
  | .ok value =>
    return .success [.const
      { table := c.table, name := c.name, type := c.type, scope := c.scope, value,
        location := c.location }]
  | .error f =>
    let d : Diagnostic := { failure := f, location := some c.location }
    return .rejected [d.about c.table c.name]

/-- The work on a job. -/
def castJob (s : Session) : CastJob → Recall (Outcome CastOutput)
  | .rows sheet bold rows => Outcome.ofAttempt (s.castRows sheet bold rows)
  | .const c => Outcome.ofAttempt (s.castConst c)

end Session

/-- Adds the output of a job. -/
def TableData.addOutput (d : TableData) : CastOutput → TableData
  | .rows sheet => d.push sheet
  | .const c => d.pushConst c

/-- The data put together from the outputs of all jobs. -/
def TableData.ofOutputs (outputs : List CastOutput) : TableData :=
  (outputs.foldl addOutput {}).finish

end TypedSheets
