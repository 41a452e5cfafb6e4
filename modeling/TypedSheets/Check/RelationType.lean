import TypedSheets.Check.Basic

/-!
# Relation types

The relations in the types of columns and constants lead to columns of tables with a key, and not
back to where they started.

## Main definitions

* `Schemas.checkTarget` — whether a relation leads somewhere.
* `Check.typeFaults` — complaints about an annotation.
* `Check.relationTypes` — the check of all columns and constants.
-/

namespace TypedSheets

/-- The failure of a relation that leads nowhere: its table is there and has a key, and the column
it names is there. -/
def Schemas.checkTarget (ss : Schemas) (target : Target) : Except Failure Unit :=
  let relation := "relation '$" ++ target.text ++ "' targets "
  match ss.find? target.table with
  | none => .error (.reference (relation ++ "an undefined table"))
  | some schema =>
    if schema.key?.isNone then
      .error (.reference (relation ++ "table '" ++ target.table ++ "', which has no key"))
    else match target.column with
      | none => .ok ()
      | some column =>
        if schema.columns.contains column then .ok ()
        else .error <| .reference <|
          relation ++ "column '" ++ column ++ "', which '" ++ target.table ++ "' does not define"

namespace Check

/-- The failures of the relations in a type. -/
def targetFaults (ss : Schemas) (expr : TypeExpr) : List Failure :=
  Attempt.failures (expr.relations.map ss.checkTarget)

/-- The failures of an annotation: of its relations one by one, else of the chain that starts with
them. -/
def typeFaults (s : Session) (type : String) : Attempt (List Failure) :=
  match TypeExpr.parse type with
  | .error f => pure [f]
  | .ok expr =>
    let faults := targetFaults s.schemas expr
    if !faults.isEmpty || expr.relations.isEmpty then pure faults
    else do
      match ← (s.schemas.rootType type).result with
      | .ok _ => return []
      | .error f => return [f]

/-- The complaints about the types of the columns of a table. -/
def columnTypes (s : Session) (w : Workbook) (t : Schema) : Attempt (List Diagnostic) := do
  let location := s.tableLocation? w t.name
  let found ← t.columns.values.mapM fun c => do
    return (← typeFaults s c.type).map fun f => complaint f location t.name c.name
  return found.flatten

/-- The complaints about the type of a constant. -/
def constType (s : Session) (c : Constant) : Attempt (List Diagnostic) := do
  return (← typeFaults s c.type).map fun f => complaint f (some c.location) c.table c.name

/-- Every relation leads to a column of a table with a key. -/
def relationTypes : Check where
  name := "relation-type"
  items s w := s.schemas.values.map (columnTypes s w) ++ s.defs.consts.values.map (constType s)

end Check

end TypedSheets
