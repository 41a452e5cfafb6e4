import TypedSheets.Settings.Basic
import TypedSheets.Sheet

/-!
# Definitions

What casting refers to: the tables, the enums, the prototypes and the constants of a session.

## Main definitions

* `Constants` — constants by table and name; the first declaration counts.
* `Definitions` — all of it.
* `Definitions.ofWorkbook` — the definitions of a workbook before its tables are resolved, with the
  generated enum of its prototypes.
-/

namespace TypedSheets

/-- Constants by table and name. -/
abbrev Constants := Keyed (String × String) Constant

namespace Constants

/-- Adds a constant, unless its name is taken. -/
def declare (cs : Constants) (c : Constant) : Constants :=
  if cs.contains (c.table, c.name) then cs else cs.insert (c.table, c.name) c

/-- The constants of a list; of two with one name the first counts. -/
def ofList (l : List Constant) : Constants :=
  l.foldl declare .empty

/-- Whether a table has any constant. -/
def hasTable (cs : Constants) (table : String) : Bool :=
  cs.keys.any (·.1 == table)

end Constants

/-- What casting refers to. -/
structure Definitions where
  /-- The tables. -/
  schemas : Schemas := .empty
  /-- The enums. -/
  enums : EnumTables := .empty
  /-- The prototypes. -/
  prototypes : Prototypes := .empty
  /-- The constants. -/
  consts : Constants := .empty
deriving Inhabited

namespace Definitions

/-- The definitions of a workbook before its tables are resolved. The prototypes are members of a
generated enum, numbered in the order of their declaration. -/
def ofWorkbook (settings : Settings) (w : Workbook) : Definitions where
  enums := (EnumTables.ofSheets w.enums).declareNumbered settings.callEnum w.prototypes.keys
  prototypes := w.prototypes
  consts := Constants.ofList w.consts

end Definitions

end TypedSheets
