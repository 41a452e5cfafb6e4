import TypedSheets.Failure
import TypedSheets.Text.Blank
import TypedSheets.Text.Numeral
import TypedSheets.Text.Word

/-!
# Enum expressions

The definition of an enum member, or a cell of an enum type, combines symbols and numerals with `&`
and `|` and parentheses. Reading gives a tree of tokens, in which every pair of parentheses is a
group.

## Main definitions

* `BitOp`, `Token` — the tokens.
* `Token.scan` — the tokens of a text; blanks are ignored.
* `Token.symbols` — the values that are no numerals.
* `literal?` — the number a numeral denotes.
-/

namespace TypedSheets

/-- The two operators. -/
inductive BitOp where
  | and
  | or
deriving DecidableEq, Inhabited

namespace BitOp

/-- The result on two words of 64 bits. -/
def apply : BitOp → Int64 → Int64 → Int64
  | and, a, b => a &&& b
  | or, a, b => a ||| b

/-- The character of an operator. -/
def char : BitOp → Char
  | and => '&'
  | or => '|'

/-- The text of an operator. -/
def text (op : BitOp) : String := String.singleton op.char

end BitOp

/-- A token: a symbol or numeral, an operator, the mark `~`, or a group in parentheses. -/
inductive Token where
  | value (text : String)
  | op (op : BitOp)
  | invert
  | group (inner : List Token)
deriving Inhabited, BEq

/-- The number a numeral denotes: hexadecimal digits behind `0x`, or ASCII digits. -/
def literal? (text : List Char) : Option Int64 :=
  match Text.stripHexMark text with
  | some digits => (Text.readInt64 16 digits).map Int64.ofInt
  | none =>
    if !text.isEmpty && text.all Char.isDigit then (Text.readInt64 10 text).map Int64.ofInt
    else none

/-- Whether a text is a numeral that fits 64 bits. -/
def isLiteral (text : String) : Bool :=
  (literal? text.toList).isSome

/-- Whether a text combines several operands. -/
def isCombined (text : String) : Bool :=
  text.toList.contains '&' || text.toList.contains '|'

namespace Token

/-- A hexadecimal digit of the ASCII class. -/
def isHexDigit (c : Char) : Bool :=
  (Text.digitValue 16 c).isSome

/-- A character that goes on a symbol. -/
def isSymbolChar (c : Char) : Bool :=
  c.isAlphanum || c == '_'

/-- The number of characters of the operand a text starts with: a hexadecimal numeral, a symbol, or
a run of decimal digits of any script; zero if there is none. -/
def operandLength (text : List Char) : Nat :=
  match text with
  | [] => 0
  | c :: rest =>
    let hex := match Text.stripHexMark text with
      | some digits => (digits.takeWhile isHexDigit).length
      | none => 0
    if 0 < hex then hex + 2
    else if Text.isNameStart c then 1 + (rest.takeWhile isSymbolChar).length
    else (text.takeWhile Text.isDecimalDigit).length

/-- What can be wrong with the text of an expression. -/
inductive Fault where
  /-- A closing parenthesis without an opening one. -/
  | unbalanced (text : String)
  /-- A character that starts no token. -/
  | unexpected (c : Char) (text : String)
  /-- An opening parenthesis that is never closed. -/
  | unclosed (text : String)
deriving DecidableEq

/-- The text of a fault. -/
def Fault.message : Fault → String
  | unbalanced text => s!"unbalanced ')' in '{text}'"
  | unexpected c text =>
    "unexpected '" ++ String.singleton c ++ "' in enum expression '" ++ text ++ "'"
  | unclosed text => s!"unclosed '(' in '{text}'"

/-- Reads tokens up to the end of the text. `level` holds the tokens of the innermost open group
in reverse, `outer` those of the groups around it, the innermost first. -/
def scanFrom (whole : String) (level : List Token) (outer : List (List Token)) (text : List Char) :
    Except Fault (List Token) :=
  match text with
  | [] => if outer.isEmpty then .ok level.reverse else .error (.unclosed whole)
  | '(' :: rest => scanFrom whole [] (level :: outer) rest
  | ')' :: rest =>
    match outer with
    | [] => .error (.unbalanced whole)
    | level' :: outer => scanFrom whole (group level.reverse :: level') outer rest
  | '&' :: rest => scanFrom whole (op .and :: level) outer rest
  | '|' :: rest => scanFrom whole (op .or :: level) outer rest
  | '~' :: rest => scanFrom whole (invert :: level) outer rest
  | c :: rest =>
    let n := operandLength (c :: rest)
    if 0 < n then
      scanFrom whole (value (String.ofList ((c :: rest).take n)) :: level) outer
        ((c :: rest).drop n)
    else .error (.unexpected c whole)
termination_by text.length
decreasing_by all_goals simp_all <;> omega

/-- The tokens of an expression, blanks ignored. -/
def scan (text : String) : Except Fault (List Token) :=
  scanFrom text [] [] (text.toList.filter (!Text.isBlank ·))

/-- The tokens of an expression, or the failure to report. -/
def parse (text : String) : Except Failure (List Token) :=
  (scan text).mapError fun f => .parse f.message

mutual

/-- The values of one token that are no numerals, groups included. -/
def symbolsOf : Token → List String
  | value v => if isLiteral v then [] else [v]
  | group inner => symbols inner
  | _ => []

/-- The values among tokens that are no numerals, groups included, from left to right. -/
def symbols : List Token → List String
  | [] => []
  | t :: ts => symbolsOf t ++ symbols ts

end

end Token

end TypedSheets
