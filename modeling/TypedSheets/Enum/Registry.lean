import TypedSheets.Enum.Evaluation
import TypedSheets.Keyed
import TypedSheets.Location
import TypedSheets.Walk

/-!
# Enum tables

Enums with their members, merged from the sheets that declare them, and the values of members. The
first declaration of a member counts; later ones are kept aside as duplicates.

## Main definitions

* `EnumSheet`, `EnumTable`, `EnumTables` — declarations and what they are merged to.
* `EnumTables.ofSheets`, `EnumTables.declareNumbered` — merging sheets, and generated enums.
* `EnumTables.memberValue` — the value of a member, through the members its definition mentions.
* `EnumTables.evaluate` — the value of a cell of an enum type.
-/

namespace TypedSheets

/-- One sheet that declares members of an enum: names with definitions, in order. -/
structure EnumSheet where
  /-- The sheet. -/
  location : Location
  /-- The name of the enum. -/
  table : String
  /-- Names and definitions. -/
  members : List (String × String)
deriving DecidableEq, Inhabited

/-- A member with its definition; generated members have no location. -/
structure EnumMember where
  /-- The text of the definition, trimmed. -/
  definition : String
  /-- The sheet that declares the member. -/
  location : Option Location
deriving DecidableEq, Inhabited

/-- An enum merged from its sheets. -/
structure EnumTable where
  /-- The members by name. -/
  members : Keyed String EnumMember := .empty
  /-- The later declarations of members, with the sheets they stand on. -/
  duplicates : List (String × Option Location) := []
  /-- The sheets the enum is merged from. -/
  locations : List Location := []
deriving DecidableEq, Inhabited

namespace EnumTable

/-- Whether a name is a member. -/
def contains (t : EnumTable) (member : String) : Bool :=
  t.members.contains member

/-- The names of the members in order. -/
def names (t : EnumTable) : List String := t.members.keys

/-- Adds a declaration found on a sheet. -/
def declare (location : Location) (t : EnumTable) (entry : String × String) : EnumTable :=
  if t.contains entry.1 then { t with duplicates := t.duplicates ++ [(entry.1, some location)] }
  else
    { t with members := t.members.insert entry.1 ⟨Text.trimmed entry.2, some location⟩ }

/-- Adds the declarations of a sheet. -/
def addSheet (t : EnumTable) (sheet : EnumSheet) : EnumTable :=
  sheet.members.foldl (declare sheet.location)
    { t with locations := t.locations ++ [sheet.location] }

/-- Sets members to the numbers from `n` on, in order. -/
def number (t : EnumTable) : (n : Nat) → List String → EnumTable
  | _, [] => t
  | n, name :: names =>
    number { t with members := t.members.insert name ⟨Text.natText n, none⟩ } (n + 1) names

end EnumTable

/-- All enums by name. -/
abbrev EnumTables := Keyed String EnumTable

namespace EnumTables

/-- The enums declared by sheets. -/
def ofSheets (sheets : List EnumSheet) : EnumTables :=
  sheets.foldl (fun ts sheet => ts.update sheet.table {} (·.addSheet sheet)) .empty

/-- Sets members of an enum to their positions in a list. -/
def declareNumbered (ts : EnumTables) (name : String) (members : List String) : EnumTables :=
  ts.update name {} fun t => t.number 0 members

/-- The JSON value of all enums: the definitions of their members. -/
def toJson (ts : EnumTables) : Json :=
  .object <| ts.entries.map fun t =>
    (t.1, .object [("members", .object <| t.2.members.entries.map fun m =>
      (m.1, .object [("definition", .string m.2.definition)]))])

/-- The names of the members of an enum, if it is there. -/
def memberNames (ts : EnumTables) (enumName : String) : List String :=
  match ts.find? enumName with
  | some t => t.names
  | none => []

/-- Members that are defined through each other. -/
def cycle (enumName : String) (path : List String) : Failure :=
  .reference <| s!"enum '{enumName}' members reference each other in a cycle: " ++
    Text.joinWith " -> " path

/-- The value of a member, while the members of `path` are being computed. -/
def memberValueFrom (ts : EnumTables) (enumName : String) (path : List String)
    (member : String) : Attempt Int64 :=
  Attempt.remember (.member enumName member) <|
    match ht : ts.find? enumName with
    | none => Attempt.fail (.undefinedEnum enumName)
    | some table =>
      match hm : table.members.find? member with
      | none => Attempt.fail (.undefinedMember member enumName)
      | some definition =>
        if hnew : member ∈ path then Attempt.fail (cycle enumName (path ++ [member]))
        else do
          have : Walk.remaining (ts.memberNames enumName) (path ++ [member]) <
              Walk.remaining (ts.memberNames enumName) path :=
            Walk.remaining_lt
              (by simpa [memberNames, ht, EnumTable.names] using Keyed.mem_keys_of_find? hm) hnew
              (fun _ hx => List.mem_append_left _ hx)
              (List.mem_append_right _ (List.mem_singleton.2 rfl))
          let tokens ← Attempt.ofExcept (Token.parse definition.definition)
          match ← Token.evaluate tokens (memberValueFrom ts enumName (path ++ [member])) with
          | .integer n => pure n
          | .symbol name => memberValueFrom ts enumName (path ++ [member]) name
termination_by Walk.remaining (ts.memberNames enumName) path

/-- The value of a member. -/
def memberValue (ts : EnumTables) (enumName member : String) : Attempt Int64 :=
  memberValueFrom ts enumName [] member

/-- The value of a cell of an enum type; its symbols must be members. -/
def evaluate (ts : EnumTables) (enumName text : String) : Attempt EnumValue :=
  match ts.find? enumName with
  | none => Attempt.fail (.undefinedEnum enumName)
  | some table => do
    let tokens ← Attempt.ofExcept (Token.parse text)
    match (Token.symbols tokens).find? fun s => !table.contains s with
    | some s => Attempt.fail (.undefinedMember s enumName)
    | none => Token.evaluate tokens (memberValue ts enumName)

end EnumTables

end TypedSheets
