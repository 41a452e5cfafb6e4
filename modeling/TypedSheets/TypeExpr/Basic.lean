import TypedSheets.Text.Cut

/-!
# Column type annotations

The type a column is declared with, and its canonical text. An annotation has a kind (a primitive
type, a container, an enum, a pair of numbers, or a relation to another table) and flags that modify
it: nullable, strong, sequence, and the part the column plays in the key of its table.

## Main definitions

* `Primitive`, `Primitive.ofName?`, `Primitive.name` — the primitive types and their spellings.
* `Target` — the table, and possibly the column, that a relation leads to.
* `TypeExpr` — a type with its flags, and the types it contains with theirs.
* `TypeExpr.text` — the canonical text.
* `TypeExpr.relations` — every relation inside an annotation.

## Design

Every constructor carries its own flags, so that an annotation is a plain tree and each function on
annotations is one structural recursion.
-/

namespace TypedSheets

/-- The types without parts. -/
inductive Primitive where
  | bool | int8 | uint8 | int16 | uint16 | int32 | uint32 | int64 | uint64 | float | double
  | string | dateTime | timeSpan | dateRange | call
deriving DecidableEq, Inhabited

/-- The inclusive bounds of an integral type; an unsigned one starts at zero. -/
inductive IntegerBounds where
  | signed (least greatest : Int)
  | unsigned (greatest : Nat)
deriving DecidableEq

namespace Primitive

/-- The type a name spells; most integral types have three spellings. -/
def ofName? (name : String) : Option Primitive :=
  match name with
  | "bool" => some bool
  | "sbyte" | "int8" | "int8_t" => some int8
  | "byte" | "uint8" | "uint8_t" => some uint8
  | "short" | "int16" | "int16_t" => some int16
  | "ushort" | "uint16" | "uint16_t" => some uint16
  | "int" | "int32" | "int32_t" => some int32
  | "uint" | "uint32" | "uint32_t" => some uint32
  | "long" | "int64" | "int64_t" => some int64
  | "ulong" | "uint64" | "uint64_t" => some uint64
  | "float" => some float
  | "double" => some double
  | "string" => some string
  | "DateTime" => some dateTime
  | "TimeSpan" => some timeSpan
  | "DateRange" => some dateRange
  | "dsl" => some call
  | _ => none

/-- The canonical spelling of a type. -/
def name : Primitive → String
  | bool => "bool"
  | int8 => "sbyte"
  | uint8 => "byte"
  | int16 => "short"
  | uint16 => "ushort"
  | int32 => "int"
  | uint32 => "uint"
  | int64 => "long"
  | uint64 => "ulong"
  | float => "float"
  | double => "double"
  | string => "string"
  | dateTime => "DateTime"
  | timeSpan => "TimeSpan"
  | dateRange => "DateRange"
  | call => "dsl"

/-- The canonical spelling spells the type. -/
@[simp] theorem ofName?_name (p : Primitive) : ofName? p.name = some p := by
  cases p <;> rfl

/-- The bounds of an integral type. -/
def bounds? : Primitive → Option IntegerBounds
  | int8 => some (.signed (-128) 127)
  | int16 => some (.signed (-32768) 32767)
  | int32 => some (.signed (-2147483648) 2147483647)
  | int64 => some (.signed (-9223372036854775808) 9223372036854775807)
  | uint8 => some (.unsigned 255)
  | uint16 => some (.unsigned 65535)
  | uint32 => some (.unsigned 4294967295)
  | uint64 => some (.unsigned 18446744073709551615)
  | _ => none

end Primitive

/-- The part a column plays in the key of its table. -/
inductive KeyRole where
  | none
  | primary
  | group
deriving DecidableEq, Inhabited

/-- The table, and possibly the column, that a relation leads to. -/
structure Target where
  /-- The table. -/
  table : String
  /-- The column; without one, the key of the table. -/
  column : Option String
deriving DecidableEq, Inhabited

/-- The text `Table` or `Table.Column`. -/
def Target.text (t : Target) : String :=
  match t.column with
  | some column => t.table ++ "." ++ column
  | none => t.table

/-- The kinds of pairs of numbers. -/
inductive Geometry where
  | point
  | size
  | range
deriving DecidableEq, Inhabited

/-- The spelling of a kind of pairs. -/
def Geometry.name : Geometry → String
  | point => "point"
  | size => "size"
  | range => "range"

/-- What modifies a type. -/
structure Flags where
  /-- Empty cells are allowed. -/
  nullable : Bool := false
  /-- The part of the column in the key. -/
  key : KeyRole := .none
  /-- Everything the type refers to has to be mentioned. -/
  strong : Bool := false
  /-- The cells are plain integers. -/
  sequence : Bool := false
deriving DecidableEq, Inhabited

/-- A type with its flags. -/
inductive TypeExpr where
  | primitive (flags : Flags) (type : Primitive)
  | array (flags : Flags) (element : TypeExpr)
  | map (flags : Flags) (key value : TypeExpr)
  | enum (flags : Flags) (name : String)
  | geometry (flags : Flags) (shape : Geometry) (element : TypeExpr)
  | relation (flags : Flags) (target : Target)
deriving DecidableEq, Inhabited

namespace TypeExpr

/-- The flags of the outermost type. -/
def flags : TypeExpr → Flags
  | primitive f _ | array f _ | map f _ _ | enum f _ | geometry f _ _ | relation f _ => f

/-- The annotation with other flags on its outermost type. -/
def withFlags (flags : Flags) : TypeExpr → TypeExpr
  | primitive _ p => primitive flags p
  | array _ e => array flags e
  | map _ k v => map flags k v
  | enum _ n => enum flags n
  | geometry _ s e => geometry flags s e
  | relation _ t => relation flags t

/-- Whether the column belongs to the key of its table. -/
def isKey (a : TypeExpr) : Bool :=
  a.flags.key != .none

/-- Whether empty cells are allowed. -/
def nullable (a : TypeExpr) : Bool := a.flags.nullable

/-- Whether everything the type refers to has to be mentioned. -/
def strong (a : TypeExpr) : Bool := a.flags.strong

/-- Whether the cells are plain integers. -/
def sequence (a : TypeExpr) : Bool := a.flags.sequence

/-- The relation an annotation is, if it is one. -/
def relation? : TypeExpr → Option Target
  | relation _ t => some t
  | _ => none

/-- Every relation inside an annotation, outer ones first, from left to right. -/
def relations : TypeExpr → List Target
  | relation _ t => [t]
  | array _ e | geometry _ _ e => e.relations
  | map _ k v => k.relations ++ v.relations
  | _ => []

/-- The bounds of an integral type. -/
def bounds? : TypeExpr → Option IntegerBounds
  | primitive _ p => p.bounds?
  | _ => none

/-! ### Canonical text -/

/-- A text with the marks of its flags: `!` and `~` before it, `?` behind it, and around all that
`*` or parentheses for a key. -/
def mark (flags : Flags) (body : List Char) : List Char :=
  let inner := (if flags.strong then ['!'] else []) ++ (if flags.sequence then ['~'] else []) ++
    body ++ (if flags.nullable then ['?'] else [])
  match flags.key with
  | .none => inner
  | .primary => '*' :: inner
  | .group => '(' :: inner ++ [')']

mutual

/-- The text of an annotation without the marks of its outermost flags. -/
def kindChars : TypeExpr → List Char
  | primitive _ p => p.name.toList
  | array _ e => '[' :: chars e ++ [']']
  | map _ k v => '{' :: chars k ++ ':' :: chars v ++ ['}']
  | enum _ n => n.toList
  | geometry _ s e => s.name.toList ++ '<' :: chars e ++ ['>']
  | relation _ t => '$' :: t.text.toList

/-- The canonical text of an annotation. -/
def chars : TypeExpr → List Char
  | primitive f p => mark f p.name.toList
  | array f e => mark f ('[' :: chars e ++ [']'])
  | map f k v => mark f ('{' :: chars k ++ ':' :: chars v ++ ['}'])
  | enum f n => mark f n.toList
  | geometry f s e => mark f (s.name.toList ++ '<' :: chars e ++ ['>'])
  | relation f t => mark f ('$' :: t.text.toList)

end

/-- The text of an annotation without the marks of its outermost flags. -/
def kindText (a : TypeExpr) : String := String.ofList a.kindChars

/-- The canonical text of an annotation. -/
def text (a : TypeExpr) : String := String.ofList a.chars

/-- The canonical text is the text of the kind with the marks of the flags. -/
theorem chars_eq_mark (a : TypeExpr) : a.chars = mark a.flags a.kindChars := by
  cases a <;> simp [chars, kindChars, flags]

end TypeExpr

end TypedSheets
