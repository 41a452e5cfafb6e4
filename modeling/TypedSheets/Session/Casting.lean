import TypedSheets.Call.Parser
import TypedSheets.Session.Definitions
import TypedSheets.Session.Number
import TypedSheets.Session.RootType

/-!
# Casting cells

The typed value of a cell under an annotation. A cell that refers to a constant has the value of the
constant under the type of the constant. Every other cell is cast to the root type of the
annotation; the parts of containers, pairs and calls are cast on their own, each as a cell of its
part type.

## Main definitions

* `Definitions.castFrom` — the value of a cell, with a bound on the depth of nested casts.
* `Definitions.cast` — the value of a cell.

## Design

The steps of a cast are functions of the cast of the parts (`sub`), so that the recursion is in one
place. Casts may go on without end only if types or default texts lead back to themselves; the bound
counts the pairs of a type and a text that a cast can pass through, so that a cast that comes to an
end never meets it.
-/

namespace TypedSheets

/-- The constants being followed, outermost first. -/
abbrev Trail := List (String × String)

/-- A cell that does not denote a value of its type. -/
def castFault (value root detail : String) : Halt :=
  .failure (.typeCast value root detail)

/-- Constants that refer to each other. -/
def constantCycle (trail : Trail) : Failure :=
  .reference ("constant cycle: " ++ Text.joinWith " -> " (trail.map fun l => l.1 ++ ":" ++ l.2))

/-- The failure of a part, with the container text it stands in. -/
def nestIn (text root : String) : Halt → Halt
  | .failure (.typeCast value type detail) =>
    .failure (.typeCast value type (detail ++ " (in '" ++ text ++ "' of type '" ++ root ++ "')"))
  | h => h

namespace Definitions

variable (d : Definitions)

/-! ### Leaves -/

/-- The text of a text cell, or a fault. -/
def textOf (root detail : String) (cell : Cell) : Attempt String :=
  match cell.asText with
  | some s => pure s
  | none => throw (castFault cell.display root detail)

/-- A value that is there, or a fault. -/
def orFault {α : Type} (value root detail : String) : Option α → Attempt α
  | some a => pure a
  | none => throw (castFault value root detail)

/-- An integer within its bounds. -/
def castInteger (root : String) (bounds : IntegerBounds) (cell : Cell) : Attempt Value := do
  let text ← textOf root "expected an integer" cell
  match bounds with
  | .signed least greatest =>
    let n ← orFault text root "expected an integer" (Text.readSigned text.toList)
    if n < least || greatest < n then
      throw (castFault text root
        ("out of range " ++ Text.intText least ++ "..=" ++ Text.intText greatest))
    else pure (.int n)
  | .unsigned greatest =>
    let range := castFault text root ("out of range 0..=" ++ Text.natText greatest)
    match Text.readUnsigned text.toList with
    | some n => if greatest < n then throw range else pure (.uint n)
    | none =>
      if (Text.readSigned text.toList).any (· < 0) then throw range
      else throw (castFault text root "expected an integer")

/-- A truth value. -/
def castBool (root : String) (cell : Cell) : Attempt Value :=
  let fault := castFault cell.display root "expected true or false"
  match cell with
  | .bool b => pure (.bool b)
  | .text s =>
    let word := String.ofList (s.toList.map Char.toLower)
    if word = "true" then pure (.bool true)
    else if word = "false" then pure (.bool false)
    else throw fault
  | _ => throw fault

/-- A floating-point number; with `single`, one that fits the smaller format. -/
def castDouble (root : String) (single : Bool) (cell : Cell) : Attempt Value := do
  let text ← textOf root "expected a number" cell
  let x ← orFault text root "expected a number" (Double.read (Text.trim text.toList))
  if !x.isFinite then throw (castFault text root "value is not finite")
  else if single && !x.fitsSingle then throw (castFault text root "out of range for float")
  else pure (.double x)

/-- A date with a time. -/
def castDateTime (root : String) (cell : Cell) : Attempt Value :=
  match cell with
  | .dateTime t => pure (.dateTime t)
  | .text s => .dateTime <$> orFault s root "expected a date/time" (DateTime.read s.toList)
  | c => throw (castFault c.display root "expected a date/time")

/-- The span a text denotes; a sum beyond the bounds of spans stops the cast. -/
def readSpan (text root detail : String) : Attempt Duration :=
  match Duration.read text.toList with
  | .ok span => orFault text root detail span
  | .error _ => throw .overflow

/-- A span of time. -/
def castTimeSpan (root : String) (cell : Cell) : Attempt Value :=
  match cell with
  | .timeSpan span => pure (.timeSpan span)
  | .text s => .timeSpan <$> readSpan s root "expected [d.]hh:mm[:ss]"
  | c => throw (castFault c.display root "expected a time span")

/-- An expression over the members of an enum. -/
def castEnum (root name : String) (cell : Cell) : Attempt Value :=
  if d.enums.contains name then do
    let text ← textOf root "expected an enum literal" cell
    .enum <$> d.enums.evaluate name text
  else
    Attempt.fail (.reference s!"'{name}' is neither a primitive type nor a defined enum")

/-! ### Compound values -/

section Compound

variable (sub : String → Cell → Attempt Value)

/-- The elements of an array. -/
def castArray (root : String) (element : TypeExpr) (cell : Cell) : Attempt Value :=
  if cell.isNull then pure (.array [])
  else
    let text := cell.display
    let items := (splitElements text.toList).mapM fun item =>
      sub element.text (.text (String.ofList item))
    Value.array <$> ExceptT.adapt (nestIn text root) items

/-- An entry of a map: a key and a value with a colon between them. -/
def castEntry (root : String) (key value : TypeExpr) (entry : List Char) :
    Attempt (Value × Value) := do
  let (k, v) ← orFault (String.ofList entry) root "map entries are written key:value"
    (Text.cutAt ':' entry)
  let k ← sub key.text (.text (String.ofList (Text.trim k)))
  let v ← sub value.text (.text (String.ofList (Text.trim v)))
  return (k, v)

/-- The entries of a map. -/
def castMap (root : String) (key value : TypeExpr) (cell : Cell) : Attempt Value :=
  if cell.isNull then pure (.map [])
  else Value.map <$> (splitElements cell.display.toList).mapM (castEntry sub root key value)

/-- The separator between the two numbers of a pair. -/
def separator : Geometry → Char
  | .range => '~'
  | _ => ','

/-- The pair of two numbers. -/
def pairValue : Geometry → Value → Value → Value
  | .point => .point
  | .size => .size
  | .range => .range

/-- A pair of numbers. -/
def castGeometry (root : String) (shape : Geometry) (element : TypeExpr) (cell : Cell) :
    Attempt Value := do
  let detail := "expected a" ++ String.singleton (separator shape) ++ "b"
  let text ← textOf root detail cell
  let (a, b) ← orFault text root detail (Text.cutAt (separator shape) text.toList)
  let a ← sub element.text (.text (String.ofList (Text.trim a)))
  let b ← sub element.text (.text (String.ofList (Text.trim b)))
  return pairValue shape a b

/-- A range of dates: two dates with `~` between them, or a span after the origin. -/
def castDateRange (root : String) (cell : Cell) : Attempt Value := do
  let text ← textOf root "expected 'start ~ end'" cell
  match Text.cutAt '~' text.toList with
  | some (start, finish) =>
    let start ← sub "DateTime" (.text (String.ofList (Text.trim start)))
    let finish ← sub "DateTime" (.text (String.ofList (Text.trim finish)))
    match start, finish with
    | .dateTime start, .dateTime finish => pure (.dateRange start finish)
    | _, _ => throw (castFault text root "expected 'start ~ end'")
  | none =>
    let span ← readSpan text root "expected 'start ~ end' or a time span"
    let finish ← orFault text root "time span out of range" (DateTime.afterOrigin span)
    return .dateRange .origin finish

/-- The arguments of a call: the given texts, and behind them the defaults. -/
def castArguments (root whole : String) : (params : List Parameter) → (args : List String) →
    Attempt (List Value)
  | [], _ => pure []
  | p :: params, arg :: args => do
    let v ← sub p.type (.text arg)
    return v :: (← castArguments root whole params args)
  | p :: params, [] => do
    let arg ← orFault whole root ("parameter '" ++ p.name ++ "' has no default") p.default
    let v ← sub p.type (.text arg)
    return v :: (← castArguments root whole params [])

/-- A call of a declared function. -/
def castCall (root : String) (cell : Cell) : Attempt Value := do
  let text ← textOf root "expected a DSL call" cell
  let call ← Attempt.ofExcept (Call.parse text)
  match d.prototypes.find? call.name with
  | none => Attempt.fail (.reference ("DSL '" ++ call.name ++ "' is not defined"))
  | some prototype =>
    let takes (bound : String) (n : Nat) : Halt :=
      castFault text root
        (prototype.signature ++ " takes " ++ bound ++ " " ++ Text.natText n ++ " arguments")
    if call.args.length < prototype.required then throw (takes "at least" prototype.required)
    else if prototype.params.length < call.args.length then
      throw (takes "at most" prototype.params.length)
    else .call call.name <$> castArguments sub root text prototype.params call.args

/-- A cell that is not empty, of a type other than a container or a string. -/
def castFilled (root : String) (expr : TypeExpr) (cell : Cell) : Attempt Value :=
  match expr with
  | .primitive _ .bool => castBool root cell
  | .primitive _ .float => castDouble root true cell
  | .primitive _ .double => castDouble root false cell
  | .primitive _ .dateTime => castDateTime root cell
  | .primitive _ .timeSpan => castTimeSpan root cell
  | .primitive _ .dateRange => castDateRange sub root cell
  | .primitive _ .call => d.castCall sub root cell
  | .primitive _ p =>
    match p.bounds? with
    | some bounds => castInteger root bounds cell
    | none => throw (castFault cell.display root "unsupported type")
  | .geometry _ shape element => castGeometry sub root shape element cell
  | .enum _ name => d.castEnum root name cell
  | _ => throw (castFault cell.display root "unsupported type")

/-- A cell under a root type. Containers are never empty, strings may always be. -/
def castRoot (root : String) (expr : TypeExpr) (cell : Cell) : Attempt Value :=
  match expr with
  | .array _ element => castArray sub root element cell
  | .map _ key value => castMap sub root key value cell
  | .primitive _ .string =>
    pure <| match cell with
      | .null => .null
      | c => .string c.display
  | _ =>
    if cell.isNull then
      if expr.nullable then pure .null else Attempt.fail (.nullValue root)
    else d.castFilled sub root expr cell

/-- A cell under an annotation, when nothing about it is remembered. -/
def castPlain (type : String) (cell : Cell) : Attempt Value := do
  let root ← d.schemas.rootType type
  let expr ← Attempt.ofExcept (TypeExpr.parse root)
  d.castRoot sub root expr cell

end Compound

/-! ### The whole cast -/

/-- Whether the root type of an annotation is a string. -/
def hasStringRoot (type : String) : Attempt Bool := do
  let root ← d.schemas.rootType type
  match ← Attempt.ofExcept (TypeExpr.parse root) with
  | .primitive _ .string => pure true
  | _ => pure false

/-- The cell without outer blanks, except that a string keeps them. -/
def settle (type : String) (cell : Cell) : Attempt Cell := do
  match cell, cell.normalize with
  | .text s, .text s' => if ← d.hasStringRoot type then pure (.text s) else pure (.text s')
  | _, normal => pure normal

/-- A constant that is not there. -/
def undefinedConstant (table name : String) : Failure :=
  .reference <|
    if d.consts.hasTable table then s!"constant '{name}' is not defined in '{table}'"
    else s!"constant table '{table}' is not defined"

/-- The value of a cell, where the constants of `trail` are being followed and at most `depth` casts
are nested. -/
def castFrom : (depth : Nat) → Trail → (type : String) → Cell → Attempt Value
  | 0, _, _, _ => throw .endless
  | depth + 1, trail, type, cell =>
    match cell.constRef? with
    | some link =>
      match d.consts.find? link with
      | none => Attempt.fail (d.undefinedConstant link.1 link.2)
      | some constant =>
        if trail.contains link then Attempt.fail (constantCycle (trail ++ [link]))
        else castFrom depth (trail ++ [link]) constant.type constant.value
    | none => do
      let cell ← d.settle type cell
      Attempt.remember (.cast type cell) (d.castPlain (castFrom depth trail) type cell)

/-! ### The bound on nested casts -/

/-- Every annotation that a cast can meet, other than the parts of annotations. -/
def types : List String :=
  d.schemas.values.flatMap (fun s => s.columns.values.map (·.type)) ++
    d.consts.values.map (·.type) ++ d.prototypes.values.flatMap (fun p => p.params.map (·.type))

/-- Every text that a cast can meet, other than the parts of texts. -/
def texts : List String :=
  d.consts.values.map (·.value.display) ++
    d.prototypes.values.flatMap fun p => p.params.filterMap (·.default)

/-- The sum of some numbers. -/
def total (ns : List Nat) : Nat :=
  ns.foldr (· + ·) 0

/-- A bound on the number of annotations of a cast: each is, up to the nullable mark, an annotation
that is written somewhere or a part of one. -/
def typeBound (type : String) : Nat :=
  2 * (total ((type :: d.types).map fun t => t.length + 1) + 8)

/-- A bound on the number of texts of a cast: each is a piece of a text that is written
somewhere. -/
def textBound (cell : Cell) : Nat :=
  let pieces := total ((cell.display :: d.texts).map fun t => t.length + 2)
  pieces * pieces + 1

/-- A bound on the depth of nested casts: on the way inward no annotation and text occur together
twice while the same constants are followed. -/
def depthBound (type : String) (cell : Cell) : Nat :=
  (d.consts.size + 1) * (d.typeBound type * d.textBound cell + 1)

/-- The value of a cell under an annotation. -/
def cast (type : String) (cell : Cell) : Attempt Value :=
  d.castFrom (d.depthBound type cell) [] type cell

end Definitions

end TypedSheets
