import TypedSheets.Failure
import TypedSheets.Location

/-!
# Diagnostics

A failure together with the place it was found at, the column or definition it belongs to, and
other places that matter to it, such as the other rows of a duplicate key.

## Main definitions

* `Diagnostic` — a located failure.
* `Diagnostic.code` — its category, which follows from the failure.
* `Diagnostic.text` — its text.
* `Diagnostic.duplicateKey`, `Diagnostic.unresolved`, `Diagnostic.conflict` — common diagnostics.
-/

namespace TypedSheets

/-- The category of a diagnostic. -/
inductive DiagnosticCode where
  | syntaxError
  | invalidName
  | nullValue
  | typeCast
  | unresolvedReference
  | schemaConflict
  | duplicateKey
  | notExhaustive
deriving DecidableEq, Inhabited

/-- The category of a failure. -/
def Failure.code : Failure → DiagnosticCode
  | .parse _ => .syntaxError
  | .nullValue _ => .nullValue
  | .typeCast .. => .typeCast
  | .reference _ => .unresolvedReference
  | .schemaConflict _ => .schemaConflict
  | .duplicateKey .. => .duplicateKey
  | .exhaustiveness .. => .notExhaustive
  | .invalidName _ => .invalidName

/-- A failure with its place. -/
structure Diagnostic where
  /-- What is wrong. -/
  failure : Failure
  /-- Where it was found. -/
  location : Option Location := none
  /-- The column or definition it belongs to, as `Table.Column`. -/
  subject : Option String := none
  /-- Other places that matter to it. -/
  related : List Location := []
deriving DecidableEq, Inhabited

namespace Diagnostic

/-- The category of a diagnostic. -/
def code (d : Diagnostic) : DiagnosticCode :=
  d.failure.code

/-- The diagnostic, found at a place. -/
def foundAt (d : Diagnostic) (location : Location) : Diagnostic :=
  { d with location := some location }

/-- The diagnostic, found at a place that may be unknown. -/
def foundAt? (d : Diagnostic) (location : Option Location) : Diagnostic :=
  { d with location }

/-- The diagnostic, belonging to a column of a table. -/
def about (d : Diagnostic) (table column : String) : Diagnostic :=
  { d with subject := some (table ++ "." ++ column) }

/-- The diagnostic, with one more place that matters to it. -/
def alsoAt (d : Diagnostic) (location : Location) : Diagnostic :=
  { d with related := d.related ++ [location] }

/-- The text of the failure alone. -/
def message (d : Diagnostic) : String :=
  d.failure.message

/-- The text of a diagnostic: the place in brackets, the message, the subject and the other
places. -/
def text (d : Diagnostic) : String :=
  let place := match d.location with
    | some l => "[" ++ l.text ++ "] "
    | none => ""
  let subject := match d.subject with
    | some s => " in " ++ s
    | none => ""
  let related :=
    if d.related.isEmpty then ""
    else " (also at " ++ Text.joinWith ", " (d.related.map Location.text) ++ ")"
  place ++ d.message ++ subject ++ related

/-- A reference that leads nowhere. -/
def unresolved (detail : String) (location : Option Location) : Diagnostic :=
  { failure := .reference detail, location }

/-- Sheets or tables that do not go together. -/
def conflict (detail : String) (location : Option Location) : Diagnostic :=
  { failure := .schemaConflict detail, location }

/-- A key found at several places: the first is where the diagnostic stands, the others are
related. -/
def duplicateKey (table key : String) (locations : List Location) : Diagnostic :=
  { failure := .duplicateKey table key, location := locations.head?, related := locations.tail }

end Diagnostic

end TypedSheets
