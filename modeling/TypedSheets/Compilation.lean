import TypedSheets.Check.All
import TypedSheets.Data.Jobs
import TypedSheets.Resolution
import TypedSheets.View

/-!
# Compilation

A workbook is compiled in three stages. Its tables are resolved, up to the first that cannot be. All
its rows and constants are cast. Then everything is checked. A stage is entered only if the one
before it had no complaint.

## Main definitions

* `Workbook.resolve` — the schemas of all tables.
* `Workbook.prepare` — a session with schemas and data.
* `Workbook.compile` — the whole compilation.
-/

namespace TypedSheets

/-- A run that can fail. -/
abbrev Stage (α : Type) := ExceptT RunFailure Recall α

namespace Workbook

/-- The work on a table: its sheets are merged, and resolved to schemas. -/
def resolveJob (w : Workbook) (settings : Settings) (table : String × List Sheet) :
    Outcome Schema :=
  let faults := w.groupFaults table.1 table.2
  if !faults.isEmpty then .rejected faults
  else match w.resolveTable settings table.2 with
    | .ok schemas => .success schemas
    | .error faults => .rejected faults

/-- The schemas of all tables, or the complaints about the first table that has some. -/
def resolve (w : Workbook) (settings : Settings) : Except RunFailure (List Schema) :=
  Id.run <|
    Pool.run "resolve" true (fun table => pure (w.resolveJob settings table)) w.tables.entries

end Workbook

namespace Session

/-- The complaints about tables whose bases are missing or lead back to them. -/
def inheritanceFaults (s : Session) : List Diagnostic :=
  s.schemas.values.filterMap fun t =>
    match s.schemas.inheritanceDepth t.name with
    | .ok _ => none
    | .error f => some { failure := f }

/-- The data of a workbook, cast under the schemas of a session. -/
def castAll (s : Session) (w : Workbook) : Stage TableData :=
  TableData.ofOutputs <$>
    ExceptT.mk (Pool.run "cast" false s.castJob (castJobs w s.settings.rowsPerJob))

/-- Checks what is cast. -/
def validate (s : Session) (w : Workbook) : Stage Unit := do
  let found ← (s.complaints w).adapt .aborted
  if found.isEmpty then return ()
  else throw (.rejected found)

/-- What a session hands out. -/
def compiled (s : Session) : Compiled where
  schemas := s.schemas
  enums := s.defs.enums
  prototypes := s.defs.prototypes
  consts := s.data.consts
  data := { s.data with consts := [] }

end Session

namespace Workbook

/-- A session with the schemas of a workbook. -/
def resolved (w : Workbook) (settings : Settings) : Except RunFailure Session := do
  let schemas ← w.resolve settings
  let s := schemas.foldl Session.withSchema (Session.ofWorkbook settings w)
  if s.inheritanceFaults.isEmpty then return s
  else throw (.rejected s.inheritanceFaults)

/-- A session with the schemas and the data of a workbook. -/
def prepare (w : Workbook) (settings : Settings) : Stage Session := do
  let s ← ExceptT.mk (.done (w.resolved settings))
  let data ← s.castAll w
  return { s with data }

/-- The whole compilation. -/
def compile (w : Workbook) (settings : Settings) : Stage Compiled := do
  let s ← w.prepare settings
  s.validate w
  return s.compiled

end Workbook

end TypedSheets
