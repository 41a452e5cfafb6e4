import TypedSheets.Check.RelationType

/-!
# Prototypes

The types of parameters are well formed and their relations lead somewhere, default texts can be
cast, and behind a parameter with a default every parameter has one.

## Main definitions

* `Check.parameterFaults` — complaints about one parameter.
* `Check.prototypes` — the check of all prototypes.
-/

namespace TypedSheets.Check

/-- The complaint about a parameter without a default, where `first` has one. -/
def missingDefault (p : Prototype) (q : Parameter) (first : String) : Diagnostic :=
  complaint (.schemaConflict ("parameter '" ++ q.name ++ "' of " ++ p.signature ++
    " needs a default because '" ++ first ++ "' has one")) none p.name q.name

/-- The complaint about a parameter behind the first one with a default. -/
def defaultOrder (p : Prototype) (first : Option String) (q : Parameter) : List Diagnostic :=
  match first, q.default with
  | some first, none => [missingDefault p q first]
  | _, _ => []

/-- The failures of the type of a parameter, else of its default text. -/
def parameterFailures (s : Session) (q : Parameter) : Attempt (List Failure) :=
  match TypeExpr.parse q.type with
  | .error f => pure [f]
  | .ok expr =>
    match targetFaults s.schemas expr, q.default with
    | [], some text => do
      match ← (s.defs.cast q.type (.text text)).result with
      | .ok _ => return []
      | .error f => return [f]
    | faults, _ => pure faults

/-- The complaints about a parameter, where `first` is the first parameter before it that has a
default. -/
def parameterFaults (s : Session) (p : Prototype) (first : Option String) (q : Parameter) :
    Attempt (List Diagnostic) := do
  let faults ← parameterFailures s q
  return defaultOrder p first q ++ faults.map fun f => complaint f none p.name q.name

/-- The complaints about parameters from left to right. -/
def parametersFaults (s : Session) (p : Prototype) (first : Option String) :
    List Parameter → Attempt (List Diagnostic)
  | [] => pure []
  | q :: qs => do
    let here ← parameterFaults s p first q
    let rest ← parametersFaults s p (first.or (q.default.map fun _ => q.name)) qs
    return here ++ rest

/-- Every prototype can be called. -/
def prototypes : Check where
  name := "dsl"
  items s _ := s.defs.prototypes.values.map fun p => parametersFaults s p none p.params

end TypedSheets.Check
