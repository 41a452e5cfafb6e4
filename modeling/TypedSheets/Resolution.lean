import TypedSheets.Diagnostic
import TypedSheets.Settings.Basic
import TypedSheets.Sheet
import TypedSheets.Sorting

/-!
# Resolving tables

The sheets of a table are merged into one schema, that of the first of them, if all declare the same
columns and the same base table. A base table has to share its columns with the tables that inherit
from it. The bold tier becomes a table of its own, the parent table, and the normal tier gains a
generated group key that leads there.

## Main definitions

* `Sheet.mergesWith` — whether two sheets declare the same columns.
* `Workbook.groupFaults` — what keeps the sheets of a table from being merged.
* `Workbook.resolveTable` — the schemas of a table.
-/

namespace TypedSheets

/-! ### Merging sheets -/

namespace Sheet

/-- The columns in the order of their names. -/
def sortedColumns (s : Sheet) : List SheetColumn :=
  sortBy (fun a b => a.name ≤ b.name) s.columns

/-- Whether two sheets declare the same columns, in whatever order. -/
def mergesWith (a b : Sheet) : Bool :=
  a.columns.length == b.columns.length &&
    (a.sortedColumns.zip b.sortedColumns).all fun p => p.1.sameHeader p.2

/-- The name of the base table, empty without one. -/
def baseName (s : Sheet) : String := s.based.getD ""

end Sheet

/-- A base table with the first sheet that names it. -/
def baseTrace (base : String) (sheet : Sheet) : String :=
  (if base = "" then "-" else base) ++ "(" ++ sheet.location.text ++ ")"

/-- The complaint about sheets of a table that name different base tables. -/
def baseConflicts (table : String) (sheets : List Sheet) : List Diagnostic :=
  let bases := (Keyed.groupBy Sheet.baseName sheets).entries
  if bases.length ≤ 1 then []
  else
    let trace := bases.flatMap fun e => (e.2.take 1).map (baseTrace e.1)
    [.conflict ("sheets of table '" ++ table ++ "' inherit from different tables: " ++
      Text.joinWith ", " trace) (sheets.head?.map (·.location))]

/-- The complaint about a sheet that declares other columns than the first sheet of its table. -/
def mergeConflict (first sheet : Sheet) : Diagnostic :=
  .conflict ("cannot merge the schema of " ++ first.location.text ++ " with " ++
    sheet.location.text) sheet.location

/-- The complaints about the sheets that declare other columns than the first. -/
def mergeConflicts (first : Sheet) (others : List Sheet) : List Diagnostic :=
  (others.filter fun sheet => !sheet.mergesWith first).map (mergeConflict first)

/-! ### Inheriting columns -/

/-- The complaints about what a sheet makes of a column of its base table. -/
def inheritedConflicts (sheet : Sheet) (base : String) (column : SheetColumn) : List Diagnostic :=
  match sheet.columns.find? (·.name == column.name) with
  | none =>
    [.conflict ("table '" ++ sheet.table ++ "' does not declare column '" ++ column.name ++
      "' of base table '" ++ base ++ "'") sheet.location]
  | some own =>
    (if own.type = column.type then []
    else [.conflict ("column '" ++ own.name ++ "' is '" ++ own.type ++ "' in '" ++ sheet.table ++
      "' but '" ++ column.type ++ "' in base table '" ++ base ++ "'") sheet.location]) ++
    (if own.scope.contains column.scope then []
    else [.conflict ("scope " ++ own.scope.name ++ " of column '" ++ own.name ++ "' in '" ++
      sheet.table ++ "' does not cover scope " ++ column.scope.name ++ " of base table '" ++ base ++
      "'") sheet.location])

namespace Workbook

/-- The complaints about a sheet against its base table. -/
def inheritanceConflicts (w : Workbook) (sheet : Sheet) : List Diagnostic :=
  match sheet.based with
  | none => []
  | some base =>
    match w.sheetOf? base with
    | none =>
      [{ failure := Schemas.undefinedBase base sheet.table, location := some sheet.location }]
    | some baseSheet => baseSheet.sortedColumns.flatMap (inheritedConflicts sheet base)

/-- What keeps the sheets of a table from being merged. -/
def groupFaults (w : Workbook) (table : String) (sheets : List Sheet) : List Diagnostic :=
  match sheets with
  | [] => []
  | first :: others =>
    baseConflicts table sheets ++ mergeConflicts first others ++ w.inheritanceConflicts first

/-! ### Schemas -/

/-- The names of the columns of the base table of a sheet. -/
def baseColumns (w : Workbook) (sheet : Sheet) : List String :=
  match sheet.based.bind w.sheetOf? with
  | some base => base.columns.map (·.name)
  | none => []

end Workbook

/-- The complaints about types of a sheet that have a fault. -/
def typeFaults (sheet : Sheet) : List Diagnostic :=
  sheet.columns.filterMap fun c =>
    match TypeExpr.parse c.type with
    | .ok _ => none
    | .error f => some { failure := f, location := some sheet.location }

/-- The columns of a tier whose types have no fault; those named in `inherited` are marked so. -/
def tierColumns (sheet : Sheet) (bold : Bool) (inherited : List String) : List SchemaColumn :=
  (sheet.tier bold).filterMap fun c =>
    (SchemaColumn.make c.name c.type c.scope (inherited.contains c.name)).toOption

/-- Adds columns, except those whose name is taken; these are the second part. -/
def addColumns (s : Schema) : List SchemaColumn → Schema × List SchemaColumn
  | [] => (s, [])
  | c :: cs =>
    if s.columns.contains c.name then
      let (s, taken) := addColumns s cs
      (s, c :: taken)
    else addColumns (s.push c) cs

/-- The complaint about a column whose name is taken. -/
def collision (sheet : Sheet) (c : SchemaColumn) : Diagnostic :=
  .conflict ("column '" ++ c.name ++ "' of table '" ++ sheet.table ++
    "' collides with the generated parent column") sheet.location

/-- The parent table of a bold tier, and its primary key, which it has to have. -/
def parentSchema (settings : Settings) (sheet : Sheet) (columns : List SchemaColumn) :
    Except (List Diagnostic) (Schema × SchemaColumn) :=
  let name := settings.parentTable sheet.table
  match columns.find? (·.isPrimaryKey) with
  | some key => .ok (columns.foldl Schema.push { name, based := none, group := name }, key)
  | none =>
    .error [.conflict ("bold columns of table '" ++ sheet.table ++
      "' must declare a primary key for '" ++ name ++ "'") sheet.location]

/-- The generated column that leads to the parent table. -/
def parentLink (settings : Settings) (sheet : Sheet) (key : SchemaColumn) :
    Except (List Diagnostic) SchemaColumn :=
  let type := "($" ++ settings.parentTable sheet.table ++ ")"
  (SchemaColumn.make settings.parentColumn type key.scope false).mapError fun f =>
    [{ failure := f, location := some sheet.location }]

/-- The table of a normal tier, which starts with the generated column if there is one. -/
def tableSchema (sheet : Sheet) (link : List SchemaColumn) (columns : List SchemaColumn) :
    Except (List Diagnostic) Schema :=
  let start : Schema :=
    { name := sheet.table, based := sheet.based, group := sheet.group.getD sheet.table }
  let (schema, taken) := addColumns (link.foldl Schema.push start) columns
  if taken.isEmpty then .ok schema else .error (taken.map (collision sheet))

namespace Workbook

/-- The schemas of a table with a given first sheet: the parent table if there are bold columns,
and the table itself if there are normal ones. -/
def resolveSheet (w : Workbook) (settings : Settings) (sheet : Sheet) :
    Except (List Diagnostic) (List Schema) := do
  let faults := typeFaults sheet
  if !faults.isEmpty then throw faults
  let bold := tierColumns sheet true []
  let normal := tierColumns sheet false (w.baseColumns sheet)
  let parent ←
    if bold.isEmpty then pure none else some <$> parentSchema settings sheet bold
  let table ←
    if normal.isEmpty then pure none
    else do
      let link ← parent.toList.mapM fun p => parentLink settings sheet p.2
      some <$> tableSchema sheet link normal
  return (parent.map Prod.fst).toList ++ table.toList

/-- The schemas of a table, declared by its first sheet. -/
def resolveTable (w : Workbook) (settings : Settings) (sheets : List Sheet) :
    Except (List Diagnostic) (List Schema) :=
  match sheets with
  | [] => .ok []
  | first :: _ => w.resolveSheet settings first

end Workbook

end TypedSheets
