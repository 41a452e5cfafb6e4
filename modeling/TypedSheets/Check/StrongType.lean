import TypedSheets.Check.Basic
import TypedSheets.Position

/-!
# Strong types

A type marked as strong mentions everything: the values of the column it occurs in, taken together,
mention every value of the column that the relation leads to, or every member of the enum.

## Main definitions

* `Check.required` — what has to be mentioned under a type.
* `Check.mentions` — what a table mentions in a column at strong positions.
* `Check.strongTypes` — the check of all columns.
-/

namespace TypedSheets.Check

/-- The strong types inside a type. -/
def strongParts (expr : TypeExpr) : List TypeExpr :=
  expr.parts.filter (·.strong)

/-- The texts that have to be mentioned under a type, or why none can be. -/
def required (s : Session) (expr : TypeExpr) : Except String (List String) :=
  match expr with
  | .relation _ target =>
    match target.column.or ((s.schemas.keyOf? target.table).map (·.name)) with
    | some column => .ok (s.columnTexts target.table column)
    | none => .error ("table '" ++ target.table ++ "' has no key")
  | .enum _ name =>
    match s.defs.enums.find? name with
    | some t => .ok t.names
    | none => .error ("enum '" ++ name ++ "' is not defined")
  | other => .error ("'!' marks a relation or enum, not '" ++ other.kindText ++ "'")

/-- The texts at strong positions inside a value, with their types; a call has no positions
inside. -/
def mentionsIn (expr : TypeExpr) (value : Value) : List (String × String) :=
  ((value.positions Keyed.empty expr).filter fun p => p.1.strong && !p.2.isNull).map fun p =>
    (p.1.kindText, p.2.text)

/-- The texts at strong positions of a column, with their types. -/
def mentions (s : Session) (t : Schema) (c : SchemaColumn) : List (String × String) :=
  (s.data.rowsOf t.name).flatMap fun row =>
    match row.values.find? c.name with
    | some value => mentionsIn c.expr value
    | none => []

/-- The number of an enum member as a text, if it has one. -/
def memberNumber (s : Session) (expr : TypeExpr) (member : String) : Attempt (Option String) :=
  match expr with
  | .enum _ name => do
    match ← (s.defs.enums.memberValue name member).result with
    | .ok n => return some (Text.intText n.toInt)
    | .error _ => return none
  | _ => pure none

/-- Whether a text is mentioned, by itself or by the number of the member it names. -/
def isMentioned (s : Session) (expr : TypeExpr) (found : List String) (text : String) :
    Attempt Bool := do
  if found.isEmpty then return false
  else if found.contains text then return true
  else return (← memberNumber s expr text).any found.contains

/-- The complaint about texts that are not mentioned in a column. -/
def missingMentions (location : Option Location) (t : Schema) (c : SchemaColumn)
    (missing : List String) : List Diagnostic :=
  if missing.isEmpty then []
  else [complaint (.exhaustiveness c.name missing) location t.name c.name]

/-- The complaints about a strong type inside the type of a column. -/
def partFaults (s : Session) (location : Option Location) (t : Schema) (c : SchemaColumn)
    (expr : TypeExpr) : Attempt (List Diagnostic) :=
  match required s expr with
  | .error detail => pure [complaint (.schemaConflict detail) location t.name c.name]
  | .ok texts => do
    let found := ((mentions s t c).filter (·.1 == expr.kindText)).map Prod.snd
    let missing ← texts.filterM fun text => return !(← isMentioned s expr found text)
    return missingMentions location t c missing

/-- The complaints about the strong types inside the type of a column. -/
def strongFaults (s : Session) (w : Workbook) (e : Schema × SchemaColumn) :
    Attempt (List Diagnostic) := do
  let location := s.tableLocation? w e.1.name
  let found ← (strongParts e.2.expr).mapM (partFaults s location e.1 e.2)
  return found.flatten

/-- Every column with a strong type mentions everything. -/
def strongTypes : Check where
  name := "strong-type"
  items s w :=
    ((s.schemas.values.flatMap fun t => t.columns.values.map fun c => (t, c)).filter fun e =>
      !(strongParts e.2.expr).isEmpty).map (strongFaults s w)

end TypedSheets.Check
