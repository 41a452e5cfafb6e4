import TypedSheets.Check.Basic

/-!
# Valid names

The names that tables, columns, enums, prototypes and constants may have.

## Main definitions

* `isValidName` — an ASCII letter, `_` or `$`, then more of these or ASCII digits.
* `Check.names` — the check that all names are valid.
-/

namespace TypedSheets

/-- A character that a name may start with. -/
def isNameHead (c : Char) : Bool :=
  c.isAlpha || c == '_' || c == '$'

/-- A character that may stand in a name. -/
def isNameTail (c : Char) : Bool :=
  isNameHead c || c.isDigit

/-- Whether a text may be a name. -/
def isValidName (name : String) : Bool :=
  match name.toList with
  | [] => false
  | c :: rest => isNameHead c && rest.all isNameTail

namespace Check

/-- The complaints about names of things at a place. -/
def nameFaults (location : Option Location) (names : List String) : List Diagnostic :=
  (names.filter (!isValidName ·)).map fun name => { failure := .invalidName name, location }

/-- The names that things bring along, with the place of each thing. -/
def namesOf (s : Session) (w : Workbook) : List (Option Location × List String) :=
  s.schemas.values.map (fun t => (s.tableLocation? w t.name, t.name :: t.columns.keys)) ++
    s.defs.enums.entries.map (fun e => (e.2.locations.head?, e.1 :: e.2.names)) ++
    s.defs.prototypes.values.map (fun p => (none, p.name :: p.params.map (·.name))) ++
    s.defs.consts.values.map (fun c => (some c.location, [c.table, c.name]))

/-- All names are valid. -/
def names : Check where
  name := "name"
  items s w := (namesOf s w).map fun e => pure (nameFaults e.1 e.2)

end Check

end TypedSheets
