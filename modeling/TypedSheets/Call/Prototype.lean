import TypedSheets.Json
import TypedSheets.Keyed
import TypedSheets.Text.Cut

/-!
# Call prototypes

Functions that a cell may call: each has a name and parameters in order, and a parameter may have a
default text that stands in for a missing argument.

## Main definitions

* `Parameter`, `Prototype` — a declared function.
* `Prototype.required` — the number of parameters without a default.
* `Prototypes` — all prototypes by name, in the order of their declaration.
-/

namespace TypedSheets

/-- A declared parameter. -/
structure Parameter where
  /-- The name. -/
  name : String
  /-- The annotation of its type. -/
  type : String
  /-- The text that stands in for a missing argument. -/
  default : Option String := none
  /-- What the parameter is for. -/
  description : Option String := none
deriving DecidableEq, Inhabited

/-- A declared function. -/
structure Prototype where
  /-- The name. -/
  name : String
  /-- The parameters in order. -/
  params : List Parameter
deriving DecidableEq, Inhabited

namespace Prototype

/-- The number of parameters without a default. -/
def required (p : Prototype) : Nat :=
  p.params.countP (·.default.isNone)

/-- The text `Name(a:int, b:float)`. -/
def signature (p : Prototype) : String :=
  p.name ++ "(" ++ Text.joinWith ", " (p.params.map fun q => q.name ++ ":" ++ q.type) ++ ")"

end Prototype

/-- The members of an optional part of a parameter. -/
def Parameter.optionalMember (name : String) : Option String → List (String × Json)
  | some s => [(name, .string s)]
  | none => []

/-- The JSON value of a parameter; parts that are missing are left out. -/
def Parameter.toJson (p : Parameter) : Json :=
  .object <| [("name", .string p.name), ("type", .string p.type)] ++
    optionalMember "default" p.default ++ optionalMember "desc" p.description

/-- The JSON value of a prototype. -/
def Prototype.toJson (p : Prototype) : Json :=
  .object [("name", .string p.name), ("params", .array (p.params.map Parameter.toJson))]

/-- All prototypes by name. -/
abbrev Prototypes := Keyed String Prototype

namespace Prototypes

/-- Declares a function; a second declaration of a name replaces the first in its place. -/
def declare (ps : Prototypes) (name : String) (params : List Parameter) : Prototypes :=
  ps.insert name ⟨name, params⟩

/-- The JSON value of all prototypes. -/
def toJson (ps : Prototypes) : Json :=
  .object (ps.entries.map fun e => (e.1, e.2.toJson))

end Prototypes

end TypedSheets
