import TypedSheets.Check.Basic
import TypedSheets.Enum.Shape

/-!
# Enum definitions

The definition of a member is a well-formed expression over members of the same enum that has a
value, and no member is declared twice.

## Main definitions

* `Check.duplicateMembers` — complaints about members that are declared again.
* `Check.definitionFaults` — complaints about the definition of a member.
* `Check.enumDefinitions` — the check of all this.
-/

namespace TypedSheets.Check

/-- The complaint about a later declaration of a member. -/
def duplicateMember (enumName : String) (t : EnumTable) (later : String × Option Location) :
    Diagnostic :=
  let first := (t.members.find? later.1).bind (·.location)
  .duplicateKey enumName later.1 (first.toList ++ later.2.toList)

/-- The complaints about members that are declared again. -/
def duplicateMembers (enumName : String) (t : EnumTable) : List Diagnostic :=
  t.duplicates.map (duplicateMember enumName t)

/-- The tokens of a definition with a well-formed shape. -/
def wellFormed (definition : String) : Except Failure (List Token) := do
  let tokens ← Token.parse definition
  Shape.require tokens
  return tokens

/-- The complaints about the definition of a member: its text, else its symbols, else its value. -/
def definitionFaults (s : Session) (enumName : String) (t : EnumTable)
    (member : String × EnumMember) : Attempt (List Diagnostic) :=
  let about (f : Failure) : Diagnostic := complaint f member.2.location enumName member.1
  match wellFormed member.2.definition with
  | .error f => pure [about f]
  | .ok tokens =>
    match (Token.symbols tokens).filter (!t.contains ·) with
    | [] => do
      match ← (s.defs.enums.memberValue enumName member.1).result with
      | .ok _ => return []
      | .error f => return [about f]
    | missing => pure (missing.map fun symbol => about (.undefinedMember symbol enumName))

/-- The complaints about an enum. -/
def enumFaults (s : Session) (e : String × EnumTable) : Attempt (List Diagnostic) := do
  let faults ← e.2.members.entries.mapM (definitionFaults s e.1 e.2)
  return duplicateMembers e.1 e.2 ++ faults.flatten

/-- Every member of an enum is declared once and has a value. -/
def enumDefinitions : Check where
  name := "enum"
  items s _ := s.defs.enums.entries.map (enumFaults s)

end TypedSheets.Check
