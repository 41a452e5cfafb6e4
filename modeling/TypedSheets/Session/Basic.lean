import TypedSheets.Data.Basic
import TypedSheets.Session.Casting

/-!
# Sessions

What is known while a workbook is compiled: the settings, the definitions, and the data cast so far.
What a session remembers of its computations is kept apart, in a `Memory`.

## Main definitions

* `Session` — settings, definitions and data.
* `Session.valueGroup` — the tables whose rows count as values of a table.
* `Session.realizedValues` — the texts that a column holds.
-/

namespace TypedSheets

/-- Settings, definitions and data. -/
structure Session where
  /-- The settings. -/
  settings : Settings := {}
  /-- The definitions. -/
  defs : Definitions := {}
  /-- The data cast so far. -/
  data : TableData := {}
deriving Inhabited

namespace Session

/-- A session with the definitions of a workbook, without tables and data. -/
def ofWorkbook (settings : Settings) (w : Workbook) : Session where
  settings := settings
  defs := Definitions.ofWorkbook settings w

/-- The tables of a session. -/
def schemas (s : Session) : Schemas := s.defs.schemas

/-- The session with one more table. -/
def withSchema (s : Session) (schema : Schema) : Session :=
  { s with defs := { s.defs with schemas := s.defs.schemas.declare schema } }

/-- The tables whose rows count as values of a table: the table itself, and every table of the
output group of its name. -/
def valueGroup (s : Session) (table : String) : List String :=
  table :: ((s.schemas.inGroup table).map (·.name)).filter (· != table)

/-- The values of a column in a table and its value group, in order, empty ones left out. -/
def columnValues (s : Session) (table column : String) : List Value :=
  (s.valueGroup table).flatMap fun name =>
    ((s.data.rowsOf name).filterMap (·.values.find? column)).filter (!·.isNull)

/-- The texts of the values of a column in a table and its value group, each once, in order. -/
def columnTexts (s : Session) (table column : String) : List String :=
  ((s.columnValues table column).map Value.text).eraseDups

/-- The texts that a column holds, remembered. -/
def realizedValues (s : Session) (table column : String) : Recall (List String) :=
  .ask (.realized table column) fun
    | some texts => .done texts
    | none =>
      .note (.realized table column) (s.columnTexts table column) .done

end Session

end TypedSheets
