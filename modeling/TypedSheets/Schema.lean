import TypedSheets.Json
import TypedSheets.Keyed
import TypedSheets.TypeExpr.Parser
import TypedSheets.Walk

/-!
# Schemas

The columns of each table with their types and scopes, and the links between tables: the base table
that a table inherits from, and the output group that its rows are emitted into.

## Main definitions

* `Scope`, `Scope.contains` — which outputs a column belongs to.
* `SchemaColumn`, `Schema` — a column and a table.
* `Schemas` — all tables by name.
* `Schemas.inheritanceDepth` — the number of base tables above a table.
* `Schemas.scoped?` — a table reduced to the columns of a scope.
-/

namespace TypedSheets

/-- The outputs a column belongs to. -/
inductive Scope where
  | server
  | client
  | common
deriving DecidableEq, Inhabited

namespace Scope

/-- Whether a scope belongs to the server output. -/
def onServer : Scope → Bool
  | client => false
  | _ => true

/-- Whether a scope belongs to the client output. -/
def onClient : Scope → Bool
  | server => false
  | _ => true

/-- Whether every output of `b` is one of `a`. -/
def contains (a b : Scope) : Bool :=
  (!b.onServer || a.onServer) && (!b.onClient || a.onClient)

/-- The name of a scope. -/
def name : Scope → String
  | server => "Server"
  | client => "Client"
  | common => "Common"

end Scope

/-- How the columns of a scope are selected. -/
inductive ScopeFilter where
  /-- The columns of just that scope. -/
  | exact
  /-- The columns whose scope contains that scope. -/
  | containing
deriving DecidableEq, Inhabited

/-- Whether a filter selects the columns of a scope for a wanted scope. -/
def ScopeFilter.selects (filter : ScopeFilter) (wanted scope : Scope) : Bool :=
  match filter with
  | exact => scope == wanted
  | containing => scope.contains wanted

/-- A column of a table. -/
structure SchemaColumn where
  /-- The name. -/
  name : String
  /-- The type as it was written. -/
  type : String
  /-- The type. -/
  expr : TypeExpr
  /-- The outputs the column belongs to. -/
  scope : Scope
  /-- Whether the base table declares the column too. -/
  inherited : Bool
  /-- The written type is the type. -/
  parses : TypeExpr.parse type = .ok expr

namespace SchemaColumn

/-- The column with a written type, unless the type has a fault. -/
def make (name type : String) (scope : Scope) (inherited : Bool) : Except Failure SchemaColumn :=
  match h : TypeExpr.parse type with
  | .ok expr => .ok { name, type, expr, scope, inherited, parses := h }
  | .error f => .error f

/-- Whether the column is a primary key. -/
def isPrimaryKey (c : SchemaColumn) : Bool := c.expr.flags.key == .primary

/-- Whether the column is a group key. -/
def isGroupKey (c : SchemaColumn) : Bool := c.expr.flags.key == .group

/-- The JSON value of a column. -/
def toJson (c : SchemaColumn) : Json :=
  .object [("name", .string c.name), ("type", .string c.type), ("scope", .string c.scope.name),
    ("inherited", .bool c.inherited)]

end SchemaColumn

/-- A table: its columns, its base table, and the output group its rows are emitted into. -/
structure Schema where
  /-- The name. -/
  name : String
  /-- The table it inherits from. -/
  based : Option String
  /-- The output group. -/
  group : String
  /-- The columns by name. -/
  columns : Keyed String SchemaColumn := .empty
deriving Inhabited

namespace Schema

/-- Adds a column; a column of the same name is replaced in its place. -/
def push (s : Schema) (c : SchemaColumn) : Schema :=
  { s with columns := s.columns.insert c.name c }

/-- The first primary key column. -/
def primaryKey? (s : Schema) : Option SchemaColumn :=
  s.columns.values.find? SchemaColumn.isPrimaryKey

/-- The first group key column. -/
def groupKey? (s : Schema) : Option SchemaColumn :=
  s.columns.values.find? SchemaColumn.isGroupKey

/-- The column that other tables refer to: the group key, or else the primary key. -/
def key? (s : Schema) : Option SchemaColumn :=
  s.groupKey?.or s.primaryKey?

/-- The key of a table is one of its columns. -/
theorem mem_values_of_key? {s : Schema} {c : SchemaColumn}
    (h : s.key? = some c) : c ∈ s.columns.values := by
  rcases Option.or_eq_some_iff.1 h with h | ⟨-, h⟩
  · exact List.mem_of_find?_eq_some h
  · exact List.mem_of_find?_eq_some h

/-- The JSON value of a table. -/
def toJson (s : Schema) : Json :=
  .object [("name", .string s.name), ("based", .ofOption s.based), ("json", .string s.group),
    ("columns", .object (s.columns.entries.map fun e => (e.1, e.2.toJson)))]

end Schema

/-- All tables by name. -/
abbrev Schemas := Keyed String Schema

namespace Schemas

/-- Adds a table; a table of the same name is replaced in its place. -/
def declare (ss : Schemas) (s : Schema) : Schemas := ss.insert s.name s

/-- The column that other tables refer to in a table. -/
def keyOf? (ss : Schemas) (table : String) : Option SchemaColumn :=
  (ss.find? table).bind Schema.key?

/-- The tables of an output group. -/
def inGroup (ss : Schemas) (group : String) : List Schema :=
  ss.values.filter (·.group == group)

/-- The JSON value of all tables. -/
def toJson (ss : Schemas) : Json :=
  .object (ss.entries.map fun e => (e.1, e.2.toJson))

/-! ### Inheritance -/

/-- A table that is its own base through other tables. -/
def inheritanceCycle (table based : String) : Failure :=
  .schemaConflict s!"table '{table}' inherits from itself through '{based}'"

/-- A base table that is not there. -/
def undefinedBase (based table : String) : Failure :=
  .reference s!"base table '{based}' of '{table}' is not defined"

/-- Counts the base tables above `current`, which was reached from `start` through the tables
`seen`. -/
def depthFrom (ss : Schemas) (start : String) (seen : List String) (current : Schema) :
    Except Failure Nat :=
  match current.based with
  | none => .ok 0
  | some based =>
    if hnew : based ∈ seen then .error (inheritanceCycle start based)
    else match h : ss.find? based with
      | none => .error (undefinedBase based current.name)
      | some next =>
        have := Walk.remaining_lt (Keyed.mem_keys_of_find? h) hnew
          (fun _ hx => List.mem_cons_of_mem based hx) (List.mem_cons_self ..)
        (depthFrom ss start (based :: seen) next).map (· + 1)
termination_by Walk.remaining ss.keys seen

/-- The number of base tables above a table. -/
def inheritanceDepth (ss : Schemas) (table : String) : Except Failure Nat :=
  match ss.find? table with
  | none => .error (.undefinedTable table)
  | some schema => ss.depthFrom table [schema.name] schema

/-! ### Scopes -/

/-- A table reduced to the columns of a scope, unless none is left. -/
def scoped? (ss : Schemas) (table : String) (scope : Scope) (filter : ScopeFilter) :
    Option Schema :=
  (ss.find? table).bind fun s =>
    let columns := s.columns.filterValues fun c => filter.selects scope c.scope
    if columns.isEmpty then none else some { s with columns }

end Schemas

end TypedSheets
