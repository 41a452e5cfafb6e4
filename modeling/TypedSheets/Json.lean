import TypedSheets.Decimal.Shortest

/-!
# Compact JSON texts

JSON values whose objects keep the order of their members, repeated names included, and their text
without blanks.

## Main definitions

* `Json` — a JSON value.
* `Json.compact` — its text.
* `Json.quote` — the text of a string: quotation mark, backslash and control characters are
  escaped, everything else stands for itself.
-/

namespace TypedSheets

/-- A JSON value; the members of an object are a list. -/
inductive Json where
  | null
  | bool (b : Bool)
  | integer (n : Int)
  | number (x : Double)
  | string (s : String)
  | array (items : List Json)
  | object (members : List (String × Json))

namespace Json

/-- The lower-case hexadecimal digit of a number below sixteen. -/
def hexDigit (d : Nat) : Char :=
  if d < 10 then Char.ofNat (48 + d) else Char.ofNat (87 + d)

/-- A character inside a quoted string. -/
def escape (c : Char) : List Char :=
  match c with
  | '"' => ['\\', '"']
  | '\\' => ['\\', '\\']
  | '\n' => ['\\', 'n']
  | '\r' => ['\\', 'r']
  | '\t' => ['\\', 't']
  | c =>
    if c.toNat = 8 then ['\\', 'b']
    else if c.toNat = 12 then ['\\', 'f']
    else if c.toNat < 32 then
      ['\\', 'u', '0', '0', hexDigit (c.toNat / 16), hexDigit (c.toNat % 16)]
    else [c]

/-- The text of a string. -/
def quote (s : String) : String :=
  String.ofList ('"' :: s.toList.flatMap escape ++ ['"'])

/-- The text of a number; a number that is not finite has no JSON form and becomes `null`. -/
def numberText (x : Double) : String :=
  if x.isFinite then x.text else "null"

mutual

/-- The text of a value. -/
def compact : Json → String
  | null => "null"
  | bool b => if b then "true" else "false"
  | integer n => Text.intText n
  | number x => numberText x
  | string s => quote s
  | array items => "[" ++ ",".intercalate (compactItems items) ++ "]"
  | object members => "\x7b" ++ ",".intercalate (compactMembers members) ++ "\x7d"

/-- The texts of the items of an array. -/
def compactItems : List Json → List String
  | [] => []
  | item :: items => compact item :: compactItems items

/-- The texts of the members of an object. -/
def compactMembers : List (String × Json) → List String
  | [] => []
  | (name, value) :: members => (quote name ++ ":" ++ compact value) :: compactMembers members

end

/-- The value of an optional string. -/
def ofOption : Option String → Json
  | none => null
  | some s => string s

end Json

end TypedSheets
