import TypedSheets.Text.Cut

/-!
# Failures

Everything that can be wrong with an annotation, a definition, a cell or a table. A failure keeps
the facts that its message states.

## Main definitions

* `Failure` — a failure by kind.
* `Failure.message` — its text.
-/

namespace TypedSheets

/-- What is wrong, by kind. -/
inductive Failure where
  /-- A malformed annotation, enum expression or call. -/
  | parse (detail : String)
  /-- An empty cell under a type without empty values. -/
  | nullValue (type : String)
  /-- A cell that does not denote a value of its type. -/
  | typeCast (value type detail : String)
  /-- A table, column, member, prototype or constant that is not there. -/
  | reference (detail : String)
  /-- Sheets or tables that do not go together. -/
  | schemaConflict (detail : String)
  /-- A key that stands for several rows or definitions. -/
  | duplicateKey (table key : String)
  /-- A strong column that does not mention everything it has to. -/
  | exhaustiveness (column : String) (missing : List String)
  /-- A name that is no identifier. -/
  | invalidName (name : String)
deriving DecidableEq, Inhabited

namespace Failure

/-- The text of a failure. -/
def message : Failure → String
  | parse detail => "parse error: " ++ detail
  | nullValue type => s!"type '{type}' does not accept an empty value"
  | typeCast value type detail => s!"cannot cast '{value}' to '{type}': {detail}"
  | reference detail => detail
  | schemaConflict detail => detail
  | duplicateKey table key => s!"duplicate key '{key}' in table '{table}'"
  | exhaustiveness column missing =>
    s!"strong reference '{column}' is missing " ++ Text.joinWith ", " missing
  | invalidName name => s!"'{name}' is not a valid identifier"

/-- A table that no sheet defines. -/
def undefinedTable (table : String) : Failure :=
  reference s!"table '{table}' is not defined"

/-- A column that a table does not have. -/
def undefinedColumn (column table : String) : Failure :=
  reference s!"column '{column}' is not defined in table '{table}'"

/-- A table that is referred to by its key and has none. -/
def unkeyedTable (table : String) : Failure :=
  reference s!"table '{table}' has no key"

/-- An enum that no sheet defines. -/
def undefinedEnum (enumName : String) : Failure :=
  reference s!"enum '{enumName}' is not defined"

/-- A name that is no member of an enum. -/
def undefinedMember (member enumName : String) : Failure :=
  reference s!"'{member}' is not a member of enum '{enumName}'"

end Failure

end TypedSheets
