import TypedSheets.Failure

/-!
# Settings

The settings of a compilation: the names of what it generates, and the sizes of its work items.

## Main definitions

* `Settings` — the settings, with their defaults.
* `Settings.parentTable` — the name of the table of the bold tier.
-/

namespace TypedSheets

/-- The settings of a compilation. -/
structure Settings where
  /-- The name of the table of the bold tier; `{table}` stands for the name of the table. -/
  parentTableFormat : String := "\x7btable\x7dAttribute"
  /-- The generated column that leads from a row to the bold row above it. -/
  parentColumn : String := "Parent"
  /-- The generated enum of all prototypes. -/
  callEnum : String := "DslFunctionType"
  /-- The number of workers; zero leaves it to the machine. -/
  workers : Nat := 0
  /-- The number of rows in a casting work item. -/
  chunkSize : Nat := 250
  /-- The number of relation uses in a checking work item. -/
  relationChunkSize : Nat := 1000
deriving DecidableEq, Inhabited

namespace Settings

/-- The place of the table name in a format. -/
def placeholder : String := "\x7btable\x7d"

/-- The name of the table of the bold tier of a table. -/
def parentTable (s : Settings) (table : String) : String :=
  String.ofList <|
    Text.replaceAll placeholder.toList table.toList s.parentTableFormat.toList

/-- The number of rows in a casting work item, at least one. -/
def rowsPerJob (s : Settings) : Nat := max s.chunkSize 1

/-- The number of relation uses in a checking work item, at least one. -/
def usesPerJob (s : Settings) : Nat := max s.relationChunkSize 1

end Settings

end TypedSheets
