import TypedSheets.Call.Prototype
import TypedSheets.Settings.Basic
import TypedSheets.Settings.Folder
import TypedSheets.Text.Blank
import TypedSheets.Yaml.Reading

/-!
# Reading settings

The settings and the prototypes as they are written in files. A file that is missing or blank stands
for the defaults, and so does every field that is left out.

## Main definitions

* `Settings.read`, `Prototypes.read` — the meaning of a document.
* `Settings.check` — what settings have to fulfil.
* `SettingsSource.settings`, `SettingsSource.prototypes` — what a source holds.
-/

namespace TypedSheets

/-- What can be wrong with a file of settings. -/
inductive SettingsFault where
  /-- The file cannot be read as what it should be. -/
  | unreadable
  /-- The format of the name of the parent table has no place for the table. -/
  | missingPlaceholder (format : String)
  /-- The generated column has no name. -/
  | blankParentColumn
  /-- The generated enum has no name. -/
  | blankCallEnum
deriving DecidableEq, Inhabited

/-- The text of a fault. -/
def SettingsFault.message : SettingsFault → String
  | unreadable => "the file cannot be read"
  | missingPlaceholder format =>
    "parent_table_format '" ++ format ++ "' must contain '" ++ Settings.placeholder ++ "'"
  | blankParentColumn => "parent_prop_name must not be empty"
  | blankCallEnum => "dsl_type_enum_name must not be empty"

/-- The value of a field, read by `read`, or a default if the field is left out. -/
def fieldOr {α : Type} (fields : List (String × Yaml.Node Nat)) (name : String) (default : α)
    (read : Yaml.Node Nat → Yaml.Reader α) : Yaml.Reader α :=
  match fields.lookup name with
  | some node => read node
  | none => return default

namespace Settings

/-- The fields of settings. -/
def fieldNames : List String :=
  ["parent_table_format", "parent_prop_name", "dsl_type_enum_name", "workers", "chunk_size",
    "relation_chunk_size"]

/-- The settings that a node denotes. -/
def read (node : Yaml.Node Nat) : Yaml.Reader Settings := do
  let fields ← node.fields fieldNames
  let start : Settings := {}
  let text (name : String) (default : String) := fieldOr fields name default Yaml.Node.text
  let number (name : String) (default : Nat) := fieldOr fields name default Yaml.Node.natural
  return {
    parentTableFormat := ← text "parent_table_format" start.parentTableFormat
    parentColumn := ← text "parent_prop_name" start.parentColumn
    callEnum := ← text "dsl_type_enum_name" start.callEnum
    workers := ← number "workers" start.workers
    chunkSize := ← number "chunk_size" start.chunkSize
    relationChunkSize := ← number "relation_chunk_size" start.relationChunkSize }

/-- Whether nothing but blanks stands in a name. -/
def isBlankName (name : String) : Bool := (Text.trim name.toList).isEmpty

/-- The settings, if the names of what is generated can be used. -/
def check (s : Settings) : Except SettingsFault Settings :=
  if !Text.occursIn placeholder.toList s.parentTableFormat.toList then
    .error (.missingPlaceholder s.parentTableFormat)
  else if isBlankName s.parentColumn then .error .blankParentColumn
  else if isBlankName s.callEnum then .error .blankCallEnum
  else .ok s

end Settings

namespace Parameter

/-- The fields of a parameter. -/
def fieldNames : List String := ["name", "type", "default", "desc"]

/-- The parameter that a node denotes. -/
def read (node : Yaml.Node Nat) : Yaml.Reader Parameter := do
  let fields ← node.fields fieldNames
  return {
    name := ← (← (fields.lookup "name").getDM failure).text
    type := ← (← (fields.lookup "type").getDM failure).text
    default := ← fieldOr fields "default" none Yaml.Node.optionalText
    description := ← fieldOr fields "desc" none Yaml.Node.optionalText }

end Parameter

namespace Prototypes

/-- The prototypes that a node denotes: a sequence of parameters under each name. -/
def read (node : Yaml.Node Nat) : Yaml.Reader Prototypes := do
  (← node.entries).foldlM (fun ps e => do
    return ps.declare e.1 (← (← e.2.items).mapM Parameter.read)) Keyed.empty

end Prototypes

namespace SettingsSource

/-- What a file of settings denotes, or a default if it is missing or blank. -/
def read {α : Type} (s : SettingsSource) (t : FileTree) (name : String) (default : α)
    (meaning : Yaml.Node Nat → Yaml.Reader α) : Except SettingsFault α :=
  match s.content t name with
  | .nothing => .ok default
  | .folder => .error .unreadable
  | .file content =>
    if Settings.isBlankName content then .ok default
    else match (Yaml.Document.parse content).bind (·.read meaning) with
      | some a => .ok a
      | none => .error .unreadable

/-- The settings of a source. -/
def settings (s : SettingsSource) (t : FileTree) : Except SettingsFault Settings :=
  (s.read t "config" {} Settings.read).bind Settings.check

/-- The prototypes of a source. -/
def prototypes (s : SettingsSource) (t : FileTree) : Except SettingsFault Prototypes :=
  s.read t "dsl" Keyed.empty Prototypes.read

end SettingsSource

end TypedSheets
