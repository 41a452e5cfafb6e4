import TypedSheets.Call.Prototype
import TypedSheets.TypeExpr.Parser
import TypedSheets.Value

/-!
# Positions in values

A type and a value of it have parts that correspond: the elements of an array, the keys and values
of a map, the numbers of a pair, and the arguments of a call with the types of its parameters.

## Main definitions

* `TypeExpr.parts` — a type and the types it contains.
* `Value.positions` — a value and the values it contains, each with its type.
-/

namespace TypedSheets

/-- A type and the types it contains, outer ones first, from left to right. -/
def TypeExpr.parts : TypeExpr → List TypeExpr
  | array f e => array f e :: e.parts
  | geometry f s e => geometry f s e :: e.parts
  | map f k v => map f k v :: (k.parts ++ v.parts)
  | e => [e]

namespace Value

mutual

/-- A value and the values it contains, outer ones first, from left to right, each with its type.
The arguments of a call are among them if the prototype is known. -/
def positions (ps : Prototypes) (expr : TypeExpr) (value : Value) : List (TypeExpr × Value) :=
  (expr, value) ::
    match value with
    | array items =>
      match expr with
      | .array _ e => itemPositions ps e items
      | _ => []
    | map entries =>
      match expr with
      | .map _ k v => entryPositions ps k v entries
      | _ => []
    | point a b =>
      match expr with
      | .geometry _ .point e => positions ps e a ++ positions ps e b
      | _ => []
    | size a b =>
      match expr with
      | .geometry _ .size e => positions ps e a ++ positions ps e b
      | _ => []
    | range a b =>
      match expr with
      | .geometry _ .range e => positions ps e a ++ positions ps e b
      | _ => []
    | call name args =>
      match expr with
      | .primitive _ .call =>
        match ps.find? name with
        | some p => argumentPositions ps p.params args
        | none => []
      | _ => []
    | _ => []

/-- The positions in the items of an array. -/
def itemPositions (ps : Prototypes) (element : TypeExpr) : List Value → List (TypeExpr × Value)
  | [] => []
  | v :: vs => positions ps element v ++ itemPositions ps element vs

/-- The positions in the entries of a map. -/
def entryPositions (ps : Prototypes) (key val : TypeExpr) :
    List (Value × Value) → List (TypeExpr × Value)
  | [] => []
  | (k, v) :: es => positions ps key k ++ positions ps val v ++ entryPositions ps key val es

/-- The positions in the arguments of a call; those whose parameter has a type with a fault are left
out. -/
def argumentPositions (ps : Prototypes) (params : List Parameter) :
    List Value → List (TypeExpr × Value)
  | [] => []
  | v :: vs =>
    match params with
    | [] => []
    | p :: params =>
      match TypeExpr.parse p.type with
      | .ok expr => positions ps expr v ++ argumentPositions ps params vs
      | .error _ => argumentPositions ps params vs

end

end Value

end TypedSheets
