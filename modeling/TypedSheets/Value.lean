import TypedSheets.Json
import TypedSheets.Moment.DateTime
import TypedSheets.Text.Cut

/-!
# Typed values

The values that cells are cast to, their texts, and their JSON forms. The text of a value is what
keys and relations are compared by.

## Main definitions

* `EnumValue` — a member name, or the number an expression comes to.
* `Value` — a typed value.
* `Value.text` — its text.
* `Value.toJson` — its JSON value.
-/

namespace TypedSheets

/-- The value of an enum cell: one symbol as it was written, or a number. -/
inductive EnumValue where
  | symbol (name : String)
  | integer (n : Int64)
deriving DecidableEq, Inhabited

/-- The text of an enum value. -/
def EnumValue.text : EnumValue → String
  | symbol name => name
  | integer n => Text.intText n.toInt

/-- A typed value. -/
inductive Value where
  | null
  | bool (b : Bool)
  | int (n : Int)
  | uint (n : Nat)
  | double (x : Double)
  | string (s : String)
  | dateTime (t : DateTime)
  | timeSpan (d : Duration)
  | dateRange (start finish : DateTime)
  | array (items : List Value)
  | map (entries : List (Value × Value))
  | enum (e : EnumValue)
  | call (name : String) (args : List Value)
  | point (x y : Value)
  | size (width height : Value)
  | range (min max : Value)
deriving Inhabited, BEq

namespace Value

/-- Whether a value is the empty one. -/
def isNull : Value → Bool
  | null => true
  | _ => false

mutual

/-- The text of a value. -/
def text : Value → String
  | null => "null"
  | bool b => if b then "true" else "false"
  | int n => Text.intText n
  | uint n => Text.natText n
  | double x => x.text
  | string s => s
  | dateTime t => t.text
  | timeSpan d => d.text
  | dateRange start finish => start.text ++ " ~ " ++ finish.text
  | array items => Text.joinWith "|" (texts items)
  | map entries => Text.joinWith "|" (entryTexts entries)
  | enum e => e.text
  | call name args => name ++ "(" ++ Text.joinWith ", " (texts args) ++ ")"
  | point x y => text x ++ "," ++ text y
  | size width height => text width ++ "," ++ text height
  | range min max => text min ++ "~" ++ text max

/-- The texts of values. -/
def texts : List Value → List String
  | [] => []
  | v :: vs => text v :: texts vs

/-- The texts `key:value` of map entries. -/
def entryTexts : List (Value × Value) → List String
  | [] => []
  | (k, v) :: es => (text k ++ ":" ++ text v) :: entryTexts es

end

mutual

/-- The JSON value of a value. Map keys are written by their texts, calls as objects of their name
and arguments, pairs and date ranges as objects of their two parts. -/
def toJson : Value → Json
  | null => .null
  | bool b => .bool b
  | int n => .integer n
  | uint n => .integer n
  | double x => .number x
  | string s => .string s
  | dateTime t => .string t.text
  | timeSpan d => .string d.text
  | dateRange start finish => .object [("start", .string start.text), ("end", .string finish.text)]
  | array items => .array (toJsons items)
  | map entries => .object (entriesToJson entries)
  | enum (.symbol name) => .string name
  | enum (.integer n) => .integer n.toInt
  | call name args => .object [("type", .string name), ("args", .array (toJsons args))]
  | point x y => .object [("x", toJson x), ("y", toJson y)]
  | size width height => .object [("width", toJson width), ("height", toJson height)]
  | range min max => .object [("min", toJson min), ("max", toJson max)]

/-- The JSON values of values. -/
def toJsons : List Value → List Json
  | [] => []
  | v :: vs => toJson v :: toJsons vs

/-- The members of the JSON object of a map. -/
def entriesToJson : List (Value × Value) → List (String × Json)
  | [] => []
  | (k, v) :: es => (text k, toJson v) :: entriesToJson es

end

end Value

end TypedSheets
