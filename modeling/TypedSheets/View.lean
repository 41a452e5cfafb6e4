import TypedSheets.Data.Basic
import TypedSheets.Call.Prototype

/-!
# Views

What a compilation hands out, and how the server and the client see it. A view of an output group
takes the rows of all its tables, reduced to the columns of a scope, and arranges them by the keys
of the owner of the group: by group key and then by primary key, by primary key, or as a list.

## Main definitions

* `Compiled` — the tables, enums, prototypes, constants and rows of a compilation.
* `Arranged`, `View` — rows arranged by primary key, and these arranged by group key.
* `Compiled.view?` — an output group as a scope sees it.
* `Compiled.views`, `Compiled.scopedConsts` — all groups and constants as a scope sees them.
-/

namespace TypedSheets

/-- What a compilation hands out. -/
structure Compiled where
  /-- The tables. -/
  schemas : Schemas
  /-- The enums. -/
  enums : EnumTables
  /-- The prototypes. -/
  prototypes : Prototypes
  /-- The constants. -/
  consts : List CastConst
  /-- The rows. -/
  data : TableData
deriving Inhabited

/-- A row reduced to some columns. -/
abbrev ScopedRow := Keyed String Value

/-- The JSON value of a row. -/
def ScopedRow.toJson (row : ScopedRow) : Json :=
  .object (row.entries.map fun e => (e.1, e.2.toJson))

/-- Rows by primary key, or without one. -/
inductive Arranged where
  | keyed (rows : Keyed String ScopedRow)
  | list (rows : List ScopedRow)

/-- The text of the value of a column in a row, empty if the row has none. -/
def keyTextIn (column : String) (row : ScopedRow) : String :=
  match row.find? column with
  | some value => value.text
  | none => ""

namespace Arranged

/-- Rows arranged by a primary key, if there is one. -/
def ofRows (primary : Option SchemaColumn) (rows : List ScopedRow) : Arranged :=
  match primary with
  | some c => keyed (.ofList (rows.map fun row => (keyTextIn c.name row, row)))
  | none => list rows

/-- The number of rows. -/
def size : Arranged → Nat
  | keyed rows => rows.size
  | list rows => rows.length

/-- The JSON value: an object or an array. -/
def toJson : Arranged → Json
  | keyed rows => .object (rows.entries.map fun e => (e.1, ScopedRow.toJson e.2))
  | list rows => .array (rows.map ScopedRow.toJson)

end Arranged

/-- Rows by group key, or without one. -/
inductive View where
  | grouped (groups : Keyed String Arranged)
  | flat (rows : Arranged)

namespace View

/-- The number of rows. -/
def size : View → Nat
  | grouped groups => groups.values.foldr (fun rows n => rows.size + n) 0
  | flat rows => rows.size

/-- The JSON value. -/
def toJson : View → Json
  | grouped groups => .object (groups.entries.map fun e => (e.1, e.2.toJson))
  | flat rows => rows.toJson

end View

namespace Compiled

/-- The output groups in the order of the tables. -/
def groups (c : Compiled) : List String :=
  (c.schemas.values.map (·.group)).eraseDups

/-- A table as a scope sees it, unless it sees no column. -/
def visible? (c : Compiled) (scope : Scope) (table : String) : Option Schema :=
  c.schemas.scoped? table scope .containing

/-- The table whose keys arrange an output group: the table of the name of the group if it belongs
to it, else the first one that the scope sees. -/
def owner? (c : Compiled) (group : String) (scope : Scope) : Option Schema :=
  ((c.visible? scope group).filter (·.group == group)).or
    ((c.schemas.inGroup group).findSome? fun t => c.visible? scope t.name)

/-- A row reduced to the columns of a table. -/
def project (columns : List String) (row : CastRow) : ScopedRow :=
  .ofList (columns.filterMap fun name => (row.values.find? name).map fun value => (name, value))

/-- The rows of an output group, reduced to the columns that a scope sees. -/
def scopedRows (c : Compiled) (group : String) (scope : Scope) : List ScopedRow :=
  (c.schemas.inGroup group).flatMap fun t =>
    match c.visible? scope t.name with
    | some visible => (c.data.rowsOf t.name).map (project visible.columns.keys)
    | none => []

/-- Rows arranged by the keys of a table. -/
def arrange (owner : Schema) (rows : List ScopedRow) : View :=
  match owner.groupKey? with
  | none => .flat (.ofRows owner.primaryKey? rows)
  | some key =>
    .grouped ((Keyed.groupBy (keyTextIn key.name) rows).mapValues (.ofRows owner.primaryKey?))

/-- An output group as a scope sees it, unless it sees no column of it. -/
def view? (c : Compiled) (group : String) (scope : Scope) : Option View :=
  (c.owner? group scope).map fun owner => arrange owner (c.scopedRows group scope)

/-- All output groups that a scope sees something of. -/
def views (c : Compiled) (scope : Scope) : List (String × View) :=
  c.groups.filterMap fun group => (c.view? group scope).map fun view => (group, view)

/-- The JSON value of all output groups. -/
def viewsToJson (c : Compiled) (scope : Scope) : Json :=
  .object ((c.views scope).map fun e => (e.1, e.2.toJson))

/-- The constants that a scope sees, by table and name; a later one replaces an earlier. -/
def scopedConsts (c : Compiled) (scope : Scope) : Keyed String (Keyed String Value) :=
  (c.consts.filter (·.scope.contains scope)).foldl
    (fun tables const => tables.update const.table .empty (·.insert const.name const.value)) .empty

/-- The JSON value of the constants. -/
def constsToJson (c : Compiled) (scope : Scope) : Json :=
  .object <| (c.scopedConsts scope).entries.map fun t =>
    (t.1, .object (t.2.entries.map fun e => (e.1, e.2.toJson)))

end Compiled

end TypedSheets
