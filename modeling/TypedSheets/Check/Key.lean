import TypedSheets.Check.Basic

/-!
# Keys

A table has at most one primary key and one group key, neither of which allows empty cells. A key of
an enum type holds one member and not a combination. No two rows of a table have one key, and no two
constants have one name.

## Main definitions

* `Check.declarationFaults` — complaints about the key columns of a table.
* `Check.combinedKeys` — complaints about cells that combine members in a key.
* `Check.duplicateRows`, `Check.duplicateConsts` — complaints about keys that occur twice.
* `Check.keys` — the check of all this.
-/

namespace TypedSheets.Check

/-! ### Declarations -/

/-- The complaint about several keys of one kind. -/
def severalKeys (table kind : String) (location : Option Location) (columns : List SchemaColumn) :
    List Diagnostic :=
  if columns.length ≤ 1 then []
  else [.conflict ("table '" ++ table ++ "' declares more than one " ++ kind ++ " key: " ++
    Text.joinWith ", " (columns.map (·.name))) location]

/-- The complaint about a key column that allows empty cells. -/
def nullableKey (table : String) (location : Option Location) (c : SchemaColumn) : Diagnostic :=
  (Diagnostic.conflict ("key column '" ++ c.name ++ "' may not be nullable") location).about
    table c.name

/-- The key columns of a table. -/
def keyColumns (t : Schema) : List SchemaColumn :=
  t.columns.values.filter (·.expr.isKey)

/-- The complaints about the key columns of a table. -/
def declarationFaults (s : Session) (w : Workbook) (t : Schema) : List Diagnostic :=
  let location := s.tableLocation? w t.name
  severalKeys t.name "primary" location (t.columns.values.filter (·.isPrimaryKey)) ++
    severalKeys t.name "group" location (t.columns.values.filter (·.isGroupKey)) ++
    ((keyColumns t).filter (·.expr.nullable)).map (nullableKey t.name location)

/-! ### Enum keys -/

/-- Whether the root type of an annotation is an enum. -/
def hasEnumRoot (s : Session) (type : String) : Attempt Bool := do
  match ← (s.schemas.rootType type).result with
  | .error _ => return false
  | .ok root =>
    match TypeExpr.parse root with
    | .ok (.enum ..) => return true
    | _ => return false

/-- The tier of a sheet that is cast into a table, if one is. -/
def tierOf? (s : Session) (table : String) (sheet : Sheet) : Option Bool :=
  if sheet.table = table then some false
  else if sheet.hasBold && s.settings.parentTable sheet.table == table then some true
  else none

/-- The cells of a column in a sheet, with their places. -/
def cellsOf (s : Session) (table column : String) (sheet : Sheet) : List (Location × Cell) :=
  match tierOf? s table sheet with
  | none => []
  | some bold =>
    ((sheet.tier bold).filter (·.name == column)).flatMap fun c =>
      c.cells.entries.map fun e => (sheet.location.atRow e.1, e.2)

/-- Whether a cell combines enum members. -/
def combines (cell : Cell) : Bool :=
  cell.asText.any isCombined

/-- The complaint about a cell of a key that combines members. -/
def combinedKey (table column : String) (cell : Location × Cell) : Diagnostic :=
  (Diagnostic.conflict ("enum key '" ++ cell.2.display ++ "' may not combine members")
    cell.1).about table column

/-- The complaints about the cells of a key column of an enum type. -/
def combinedKeysOf (s : Session) (w : Workbook) (table column : String) : List Diagnostic :=
  ((w.sheets.flatMap (cellsOf s table column)).filter fun e => combines e.2).map
    (combinedKey table column)

/-- The complaints about the cells of all key columns of a table. -/
def combinedKeys (s : Session) (w : Workbook) (t : Schema) : Attempt (List Diagnostic) := do
  let found ← (keyColumns t).mapM fun c => do
    return if ← hasEnumRoot s c.type then combinedKeysOf s w t.name c.name else []
  return found.flatten

/-! ### Duplicates -/

/-- The text of the key of a row: its primary key, behind its group key if it has one; none if the
primary key is empty. -/
def keyText? (primary : SchemaColumn) (group : Option SchemaColumn) (row : CastRow) :
    Option String :=
  ((row.values.find? primary.name).filter (!·.isNull)).map fun value =>
    match group.bind fun g => row.values.find? g.name with
    | some parent => parent.text ++ "/" ++ value.text
    | none => value.text

/-- The keys of the rows of a table, with the places of the rows. -/
def keysOf (s : Session) (t : Schema) : List (String × Location) :=
  match t.primaryKey? with
  | none => []
  | some primary =>
    (s.data.sheets t.name).flatMap fun sheet =>
      sheet.rows.filterMap fun row =>
        (keyText? primary t.groupKey? row).map fun key => (key, sheet.locationOf row)

/-- The places of each key, where a key has several. -/
def repeated {κ : Type} [DecidableEq κ] (keys : List (κ × Location)) :
    List (κ × List Location) :=
  ((Keyed.groupBy Prod.fst keys).entries.filter fun e => 1 < e.2.length).map fun e =>
    (e.1, e.2.map Prod.snd)

/-- The complaints about keys of several rows. -/
def duplicateRows (s : Session) (t : Schema) : List Diagnostic :=
  (repeated (keysOf s t)).map fun e => .duplicateKey t.name e.1 e.2

/-- The complaints about names of several constants. -/
def duplicateConsts (w : Workbook) : List Diagnostic :=
  (repeated (w.consts.map fun c => ((c.table, c.name), c.location))).map fun e =>
    .duplicateKey e.1.1 e.1.2 e.2

/-- The complaints about the keys of a table. -/
def tableKeys (s : Session) (w : Workbook) (t : Schema) : Attempt (List Diagnostic) := do
  let combined ← combinedKeys s w t
  return declarationFaults s w t ++ combined ++ duplicateRows s t

/-- Keys are declared once, filled, and unique. -/
def keys : Check where
  name := "key"
  items s w := s.schemas.values.map (tableKeys s w) ++ [pure (duplicateConsts w)]

end TypedSheets.Check
