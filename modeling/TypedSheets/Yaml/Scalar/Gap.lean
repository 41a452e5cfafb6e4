import TypedSheets.Yaml.Cursor

/-!
# Gaps between words

What stands between two words of a scalar that is not a block of lines. A single line end counts as
a blank, and each further one as a line end; blanks at the ends and at the starts of lines do not
count.

## Main definitions

* `Yaml.Gap` — what stands between two words of a scalar.
* `Yaml.Gap.blank`, `Yaml.Gap.lineEnd` — a gap with one more character.
* `Yaml.Gap.reversed` — the characters that a gap stands for.
-/

namespace TypedSheets.Yaml

/-- What stands between two words of a scalar. -/
inductive Gap where
  /-- Nothing. -/
  | none
  /-- Blanks of one line, in reverse. -/
  | blanks (reversed : List Char)
  /-- The end of a line, unless it is escaped, and further line ends, in reverse. -/
  | lines (first : Option Char) (more : List Char)
deriving DecidableEq, Inhabited

namespace Gap

/-- The gap with one more blank; those at the ends of lines do not count. -/
def blank (c : Char) : Gap → Gap
  | none => blanks [c]
  | blanks cs => blanks (c :: cs)
  | gap => gap

/-- The gap with one more line end. -/
def lineEnd (c : Char) : Gap → Gap
  | lines first more => lines first (c :: more)
  | _ => lines (some c) []

/-- The characters that a gap stands for, in reverse. -/
def reversed : Gap → List Char
  | none => []
  | blanks cs => cs
  | lines (some '\n') [] => [' ']
  | lines (some '\n') more => more
  | lines first more => more ++ first.toList

/-- Whether a gap is one. -/
def isSome : Gap → Bool
  | none => false
  | _ => true

/-- Whether a gap goes over a line end. -/
def isLines : Gap → Bool
  | lines .. => true
  | _ => false

end Gap

end TypedSheets.Yaml
