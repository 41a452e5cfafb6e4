import TypedSheets.Check.Basic
import TypedSheets.Chunks
import TypedSheets.Position

/-!
# Relation values

A value at a position whose type is a relation occurs in the column that the relation leads to.

## Main definitions

* `RelationUse` — a value of a relation type in the data.
* `Session.relationUses` — all of them, through containers and calls.
* `Check.relationValues` — the check that every one of them occurs where it leads to.
-/

namespace TypedSheets

/-- A value of a relation type. -/
structure RelationUse where
  /-- The table the relation leads to. -/
  table : String
  /-- The column the relation leads to. -/
  column : String
  /-- The text of the value. -/
  value : String
  /-- The row or sheet that holds the value. -/
  location : Location
  /-- The table and the column, or the constant, that hold the value. -/
  subject : String × String
deriving DecidableEq, Inhabited

/-- The column that the values of a relation are looked up in: the one it names, or else the key of
the table. -/
def Schemas.targetColumn? (ss : Schemas) (target : Target) : Option String :=
  target.column.or ((ss.keyOf? target.table).map (·.name))

namespace Session

/-- The table, column and text of a value of a relation type, unless the value is empty. -/
def relationText? (s : Session) (p : TypeExpr × Value) : Option (String × String × String) :=
  if p.2.isNull then none
  else do
    let target ← p.1.relation?
    let column ← s.schemas.targetColumn? target
    return (target.table, column, p.2.text)

/-- The values of relation types inside a value. -/
def usesIn (s : Session) (location : Location) (subject : String × String) (expr : TypeExpr)
    (value : Value) : List RelationUse :=
  ((value.positions s.defs.prototypes expr).filterMap s.relationText?).map fun e =>
    { table := e.1, column := e.2.1, value := e.2.2, location, subject }

/-- The values of relation types in a row. -/
def usesInRow (s : Session) (t : Schema) (location : Location) (row : CastRow) :
    List RelationUse :=
  t.columns.values.flatMap fun c =>
    match row.values.find? c.name with
    | some value => s.usesIn location (t.name, c.name) c.expr value
    | none => []

/-- The values of relation types in a table. -/
def usesInTable (s : Session) (t : Schema) : List RelationUse :=
  (s.data.sheets t.name).flatMap fun sheet =>
    sheet.rows.flatMap fun row => s.usesInRow t (sheet.locationOf row) row

/-- The values of relation types in a constant. -/
def usesInConst (s : Session) (c : CastConst) : List RelationUse :=
  match TypeExpr.parse c.type with
  | .ok expr => s.usesIn c.location (c.table, c.name) expr c.value
  | .error _ => []

/-- All values of relation types: those of the tables, and those of the constants. -/
def relationUses (s : Session) : List RelationUse :=
  s.schemas.values.flatMap s.usesInTable ++ s.data.consts.flatMap s.usesInConst

end Session

namespace Check

/-- The complaint about a value that does not occur where it leads to. -/
def missingValue (u : RelationUse) : Diagnostic :=
  complaint (.reference ("value '" ++ u.value ++ "' does not exist in " ++ u.table ++ "." ++
    u.column)) u.location u.subject.1 u.subject.2

/-- The complaint about a value of a relation type, if there is one. -/
def useFaults (s : Session) (u : RelationUse) : Recall (List Diagnostic) := do
  let texts ← s.realizedValues u.table u.column
  return if texts.contains u.value then [] else [missingValue u]

/-- The complaints about some values of relation types. -/
def usesFaults (s : Session) (uses : List RelationUse) : Attempt (List Diagnostic) :=
  ExceptT.lift do
    let found ← uses.mapM (useFaults s)
    return found.flatten

/-- Every value of a relation type occurs in the column that the relation leads to. -/
def relationValues : Check where
  name := "relation-value"
  items s _ := (chunksOf s.settings.usesPerJob s.relationUses).map (usesFaults s)

end Check

end TypedSheets
