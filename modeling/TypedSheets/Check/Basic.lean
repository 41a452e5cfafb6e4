import TypedSheets.Pool
import TypedSheets.Session.Basic

/-!
# Checks

What is checked once everything is cast. A check looks at items, such as the tables, each on its
own, and reports every complaint about each of them.

## Main definitions

* `Check` — a check: its name, and what it does for each of its items.
* `Check.report` — the complaints of a check, in the order of its items.
* `Session.tableLocation?` — where complaints about a table stand.
-/

namespace TypedSheets

/-- A check. -/
structure Check where
  /-- The name. -/
  name : String
  /-- The complaints about each item. -/
  items : Session → Workbook → List (Attempt (List Diagnostic))

namespace Check

/-- The work on an item: it is rejected if there is a complaint. -/
def examine (item : Attempt (List Diagnostic)) : Attempt (Outcome Unit) := do
  let complaints ← item
  return if complaints.isEmpty then .success [] else .rejected complaints

/-- Runs a check on all its items. -/
def run (c : Check) (s : Session) (w : Workbook) : Recall (Except RunFailure (List Unit)) :=
  Pool.run c.name false (fun item => Outcome.ofAttempt (examine item)) (c.items s w)

/-- The complaints of a check, or the faults that kept it from its end. -/
def report (c : Check) (s : Session) (w : Workbook) :
    Recall (Except (List String) (List Diagnostic)) :=
  (c.run s w).bind fun r => .done <| match r with
    | .ok _ => .ok []
    | .error (.rejected complaints) => .ok complaints
    | .error (.aborted faults) => .error faults

end Check

/-- The place of a table: the first sheet that declares it, or, for a parent table, the first sheet
with a bold tier that has it as its parent table. -/
def Session.tableLocation? (s : Session) (w : Workbook) (table : String) : Option Location :=
  ((w.sheetOf? table).or <| w.sheets.find? fun sheet =>
    sheet.hasBold && s.settings.parentTable sheet.table == table).map (·.location)

/-- The complaint about a failure of something that belongs to a column or definition. -/
def complaint (f : Failure) (location : Option Location) (table column : String) : Diagnostic :=
  (({ failure := f, location } : Diagnostic)).about table column

end TypedSheets
