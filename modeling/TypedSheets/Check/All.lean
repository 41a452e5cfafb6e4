import TypedSheets.Check.EnumDefinition
import TypedSheets.Check.Key
import TypedSheets.Check.Name
import TypedSheets.Check.Prototype
import TypedSheets.Check.RelationValue
import TypedSheets.Check.StrongType

/-!
# All checks

The checks of a compilation in their order, and the complaints of all of them. No check keeps the
others from being made; only a fault of a check itself ends them.

## Main definitions

* `Check.all` — the checks.
* `Session.complaints` — the complaints of all checks.
-/

namespace TypedSheets

/-- The checks in order. -/
def Check.all : List Check :=
  [names, keys, enumDefinitions, prototypes, relationTypes, relationValues, strongTypes]

/-- The complaints of checks, one check after the other, or the faults that kept one from its
end. -/
def Session.complaintsOf (s : Session) (w : Workbook) :
    List Check → ExceptT (List String) Recall (List Diagnostic)
  | [] => pure []
  | c :: cs => do
    let found ← ExceptT.mk (c.report s w)
    return found ++ (← s.complaintsOf w cs)

/-- The complaints of all checks. -/
def Session.complaints (s : Session) (w : Workbook) :
    ExceptT (List String) Recall (List Diagnostic) :=
  s.complaintsOf w Check.all

end TypedSheets
