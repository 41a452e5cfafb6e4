import TypedSheets.Failure
import TypedSheets.Text.Cut
import TypedSheets.Text.Blank
import TypedSheets.Text.Word

/-!
# Reading calls

A call is written `Name(a, b)`: a word, and arguments in parentheses with commas between them.
Commas inside parentheses do not separate arguments, and empty arguments are dropped.

## Main definitions

* `Call` — a call with its arguments as texts.
* `splitArguments` — the pieces of a text at the commas outside of parentheses.
* `Call.parse` — the call a text denotes.
-/

namespace TypedSheets

/-- A call; the arguments are texts. -/
structure Call where
  /-- The name of the function. -/
  name : String
  /-- The arguments in order. -/
  args : List String
deriving DecidableEq, Inhabited

/-- The pieces of a text at the commas where as many parentheses are closed as opened. The first
piece continues the one already begun, which is given in reverse. -/
def splitArguments (begun : List Char) (depth : Int) : List Char → List (List Char)
  | [] => [begun.reverse]
  | c :: rest =>
    if c = '(' then splitArguments (c :: begun) (depth + 1) rest
    else if c = ')' then splitArguments (c :: begun) (depth - 1) rest
    else if c = ',' && depth = 0 then begun.reverse :: splitArguments [] depth rest
    else splitArguments (c :: begun) depth rest

namespace Call

/-- The name before the first parenthesis and the text up to a parenthesis at the very end, all on
one line. -/
def frame? (text : List Char) : Option (List Char × List Char) :=
  match text.dropWhile Text.isWordChar with
  | '(' :: rest =>
    let name := text.takeWhile Text.isWordChar
    match Text.stripSuffix ')' rest with
    | some inside => if name.isEmpty || inside.contains '\n' then none else some (name, inside)
    | none => none
  | _ => none

/-- The arguments in the text between the parentheses of a call. -/
def arguments (inside : List Char) : List String :=
  (((splitArguments [] 0 inside).map Text.trim).filter (!·.isEmpty)).map String.ofList

/-- The call a text denotes. -/
def parse (text : String) : Except Failure Call :=
  match frame? (Text.trim text.toList) with
  | some (name, inside) => .ok ⟨String.ofList name, arguments inside⟩
  | none => .error (.parse s!"'{text}' is not a DSL call")

end Call

end TypedSheets
