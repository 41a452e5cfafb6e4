import TypedSheets.Json
import TypedSheets.Moment.DateTime
import TypedSheets.Text.Word

/-!
# Raw cells

A cell as the spreadsheet gives it: empty, a truth value, a text (numbers come as text), or a date
or span that the spreadsheet has resolved already.

## Main definitions

* `Cell` — a cell.
* `Cell.normalize` — the cell without outer blanks; a blank text and `null` become empty.
* `Cell.constRef?` — the constant that a cell refers to, if it is a reference.
* `splitElements` — the elements of a container text.
-/

namespace TypedSheets

/-- A cell of a sheet. -/
inductive Cell where
  | null
  | bool (b : Bool)
  | text (s : String)
  | dateTime (t : DateTime)
  | timeSpan (d : Duration)
deriving DecidableEq, Hashable, Inhabited

namespace Cell

/-- Whether a text stands for an empty cell. -/
def isNullText (text : List Char) : Bool :=
  let text := Text.trim text
  text.isEmpty || text == ['n', 'u', 'l', 'l']

/-- The cell without outer blanks; a blank text and `null` become empty. -/
def normalize : Cell → Cell
  | text s => if isNullText s.toList then null else text (Text.trimmed s)
  | c => c

/-- Whether a cell is empty. -/
def isNull : Cell → Bool
  | null => true
  | text s => isNullText s.toList
  | _ => false

/-- The text of a text cell. -/
def asText : Cell → Option String
  | text s => some s
  | _ => none

/-- The text of any cell. -/
def display : Cell → String
  | null => "null"
  | bool b => if b then "true" else "false"
  | text s => s
  | dateTime t => t.preciseText
  | timeSpan d => d.isoText

/-- The JSON value of a cell. -/
def toJson : Cell → Json
  | null => .null
  | bool b => .bool b
  | c => .string c.display

/-- The table and name in a text `Const:Table:Name`, both words. -/
def constNames? (text : List Char) : Option (String × String) := do
  let rest ← Text.stripPrefix ['C', 'o', 'n', 's', 't', ':'] text
  let (table, name) ← Text.cutAt ':' rest
  if Text.isWord table && Text.isWord name then
    some (String.ofList table, String.ofList name)
  else none

/-- The table and name of the constant that a cell refers to. -/
def constRef? : Cell → Option (String × String)
  | text s => constNames? (Text.trim s.toList)
  | _ => none

end Cell

/-! ### Elements of containers -/

/-- The pieces of a container text at the separators `&`, `|` and line end, except inside
parentheses; a closing parenthesis too many does not protect what follows it. The first piece
continues the one already begun, which is given in reverse. -/
def splitPieces (begun : List Char) (depth : Int) : List Char → List (List Char)
  | [] => [begun.reverse]
  | c :: rest =>
    if c = '(' then splitPieces (c :: begun) (depth + 1) rest
    else if c = ')' then splitPieces (c :: begun) (depth - 1) rest
    else if (c = '&' || c = '|' || c = '\n') && depth ≤ 0 then
      begun.reverse :: splitPieces [] depth rest
    else splitPieces (c :: begun) depth rest

/-- The elements of a container text: its pieces, trimmed, without the empty ones. -/
def splitElements (text : List Char) : List (List Char) :=
  ((splitPieces [] 0 text).map Text.trim).filter (!·.isEmpty)

end TypedSheets
