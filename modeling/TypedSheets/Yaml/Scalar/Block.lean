import TypedSheets.Yaml.Cursor

/-!
# Blocks of lines

Texts that are written as lines with a common indentation. A literal block keeps its line ends; in a
folded one a single line end between two lines that do not start with a blank counts as a blank.

## Main definitions

* `Yaml.Chomp` — what becomes of the line ends behind a block.
* `Yaml.Block.header?` — the first line of a block.
* `Yaml.Block.vacant?` — the lines without anything in them, and the indentation of what follows.
* `Yaml.Block.read` — a block of lines.
-/

namespace TypedSheets.Yaml

/-- What becomes of the line ends behind a block. -/
inductive Chomp where
  /-- All of them are dropped. -/
  | strip
  /-- The first of them is kept. -/
  | clip
  /-- All of them are kept. -/
  | keep
deriving DecidableEq, Inhabited

namespace Block

/-! ### The first line -/

/-- The mark for the line ends behind a block, and what follows it. -/
def chompMark : List Char → Option Chomp × List Char
  | '+' :: rest => (some .keep, rest)
  | '-' :: rest => (some .strip, rest)
  | text => (none, text)

/-- The digit at the start of a text, if there is one, and what follows it; it is not zero. -/
def indentMark? : List Char → Option (Option Nat × List Char)
  | c :: rest =>
    if c = '0' then none
    else if c.isDigit then some (some (c.toNat - '0'.toNat), rest)
    else some (none, c :: rest)
  | [] => some (none, [])

/-- What becomes of the line ends behind a block, the number of columns its lines are indented by if
that is given, and the end of the line. The two marks may stand in either order. -/
def header? (text : List Char) : Option (Chomp × Option Nat × List Char) := do
  let (first, rest) := chompMark text
  let (indent, rest) ← indentMark? rest
  let (second, rest) := if first.isNone && indent.isSome then chompMark rest else (none, rest)
  return ((first.or second).getD .clip, indent, ← restOfLine? rest)

/-! ### The lines -/

/-- Lines of a block without anything in them, and what follows them. -/
structure Vacant where
  /-- The ends of the lines, in reverse. -/
  ends : List Char
  /-- The greatest number of blanks that a line starts with. -/
  most : Nat
  /-- The place behind the indentation of the line that follows. -/
  place : Cursor

/-- Past the lines with nothing in them, from within a line. No more than `indent` blanks are taken
for indentation, if that is known, and a tab may not stand in place of one. -/
def vacantFrom (indent : Option Nat) (ends : List Char) (most : Nat) (m : Mark) :
    List Char → Option Vacant
  | [] => some ⟨ends, max most m.column, ⟨m, []⟩⟩
  | c :: rest =>
    let inside := (indent.map (decide <| m.column < ·)).getD true
    if c = ' ' && inside then vacantFrom indent ends most (m.next c) rest
    else if c = '\t' && inside then none
    else if isLineEnd c then vacantFrom indent (c :: ends) (max most m.column) (m.next c) rest
    else some ⟨ends, max most m.column, ⟨m, c :: rest⟩⟩

/-- Past the lines with nothing in them. -/
def vacant? (indent : Option Nat) (c : Cursor) : Option Vacant :=
  vacantFrom indent [] 0 c.toMark c.rest

/-- What is read of a block. -/
structure State where
  /-- The characters in reverse. -/
  read : List Char := []
  /-- The line end that waits to be read. -/
  waiting : Option Char := none
  /-- The line ends behind it, in reverse. -/
  vacant : List Char := []
  /-- Whether the last line starts with a blank. -/
  indented : Bool := false

/-- The characters between the last line and the next one, in reverse. A folded line end counts as
a blank, or for nothing if vacant lines follow, unless a line next to it starts with a blank. -/
def State.between (s : State) (literal indented : Bool) : List Char :=
  if !literal && s.waiting = some '\n' && !s.indented && !indented then
    if s.vacant.isEmpty then [' '] else s.vacant
  else s.vacant ++ s.waiting.toList

/-- The state behind a line and the vacant lines that follow it. -/
def State.add (s : State) (literal : Bool) (content : List Char) (waiting : Option Char)
    (vacant : List Char) : State :=
  let indented := content.head?.any isGap
  { read := content.reverse ++ s.between literal indented ++ s.read, waiting, vacant, indented }

/-- Reads the lines of a block up to the first that is indented less. -/
def readLines (literal : Bool) (indent : Nat) (s : State) (c : Cursor) :
    Option (State × Cursor) :=
  if c.column = indent && !c.rest.isEmpty then do
    let content := c.rest.takeWhile (!isLineEnd ·)
    let behind := c.moveTo (c.rest.dropWhile (!isLineEnd ·))
    let v ← vacant? (some indent) behind.next
    if _h : v.place.length < c.length then
      readLines literal indent (s.add literal content behind.rest.head? v.ends) v.place
    else none
  else some (s, c)
termination_by c.length

/-- The characters of a block. -/
def State.text (s : State) (chomp : Chomp) : List Char :=
  let ends := match chomp with
    | .strip => []
    | .clip => s.waiting.toList
    | .keep => s.vacant ++ s.waiting.toList
  (ends ++ s.read).reverse

/-- The text of a block whose mark stands at a place, and the place behind it. A given number of
columns counts from the column of the collection that the block is part of, and `least` is the one
behind that. -/
def read (literal : Bool) (least : Nat) (c : Cursor) : Option (List Char × Cursor) := do
  let (chomp, given, rest) ← header? c.next.rest
  let given := given.map (least - 1 + ·)
  let v ← vacant? given (c.moveTo rest).next
  let indent := given.getD (max v.most (max least 1))
  let (s, e) ← readLines literal indent { vacant := v.ends } v.place
  return (s.text chomp, e)

end Block

end TypedSheets.Yaml
