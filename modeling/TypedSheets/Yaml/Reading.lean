import TypedSheets.Text.Numeral
import TypedSheets.Yaml.Document

/-!
# Reading nodes

The meaning of a node, for one who knows what to expect of it. References are followed on the way,
but not without end: small documents can refer to the same nodes over and over.

## Main definitions

* `Yaml.Reader` — a way to read a part of a document.
* `Yaml.Node.follow` — the node that is meant.
* `Yaml.Node.text`, `Yaml.Node.optionalText`, `Yaml.Node.natural` — scalars as what they are
  expected to be.
* `Yaml.Node.items`, `Yaml.Node.entries`, `Yaml.Node.fields` — collections as that.
-/

namespace TypedSheets.Yaml

/-- A way to read a part of a document, counting the references that are followed. -/
abbrev Reader (α : Type) := ReaderT Document (StateT Nat Option) α

/-- What a document denotes, read from its root node. -/
def Document.read {α : Type} (d : Document) (read : Node Nat → Reader α) : Option α :=
  ((read d.root).run d).run' 0

/-- The tag of what stands for nothing. -/
def nullTag : String := "tag:yaml.org,2002:null"

/-- The tag of whole numbers. -/
def integerTag : String := "tag:yaml.org,2002:int"

/-- Whether a text is one of the spellings of nothing. -/
def isNull (text : String) : Bool := ["~", "null", "Null", "NULL"].contains text

/-- The natural number below 2^64 that digits denote in a radix. -/
def digits? (radix : Nat) (text : List Char) : Option Nat :=
  (Text.readNat radix text).filter (· ≤ Text.maxNat64)

/-- The natural number below 2^64 that a text denotes: a decimal numeral without needless zeros, or
one of another radix behind its mark; `+` may stand in front. -/
def readNatural (text : List Char) : Option Nat :=
  let text := match text with
    | '+' :: rest => rest
    | _ => text
  match text with
  | '0' :: 'x' :: rest => digits? 16 rest
  | '0' :: 'o' :: rest => digits? 8 rest
  | '0' :: 'b' :: rest => digits? 2 rest
  | '0' :: _ :: _ => none
  | _ => digits? 10 text

/-- The text of a scalar, unless it stands for nothing. A plain one does if nothing or a spelling of
nothing is written; one that is said to stand for nothing has to be spelled so, and with another tag
it is a text. -/
def optionalText? (tag : Option String) (style : Style) (text : String) : Option (Option String) :=
  if style ≠ .plain then some (some text)
  else match tag with
    | none => some (if text.isEmpty || isNull text then none else some text)
    | some tag =>
      if tag = nullTag then if isNull text then some none else none else some (some text)

namespace Node

/-- The node that is meant: the one that is referred to, if the node is a reference. -/
def follow : Node Nat → Reader (Node Nat)
  | reference number => do
    modify (· + 1)
    let d ← read
    if (← get) ≤ d.maxFollowed then (d.targets.find? number).getDM failure else failure
  | node => return node

/-- The text of a scalar. -/
def text (node : Node Nat) : Reader String := do
  match ← node.follow with
  | scalar _ _ text => return text
  | _ => failure

/-- The text of a scalar, if it does not stand for nothing. -/
def optionalText (node : Node Nat) : Reader (Option String) := do
  match ← node.follow with
  | scalar p style text => (optionalText? p.tag style text).getDM failure
  | _ => failure

/-- The natural number that a scalar denotes, which is plain, or a literal block with the tag of
whole numbers. -/
def natural (node : Node Nat) : Reader Nat := do
  match ← node.follow with
  | scalar p style text =>
    if style = .plain || (style = .literal && p.tag = some integerTag) then
      (readNatural text.toList).getDM failure
    else failure
  | _ => failure

/-- The items of a sequence. -/
def items (node : Node Nat) : Reader (List (Node Nat)) := do
  match ← node.follow with
  | sequence _ items => return items
  | node => if node.isVacant then return [] else failure

/-- The entries of a mapping whose keys are scalars. -/
def entries (node : Node Nat) : Reader (List (String × Node Nat)) := do
  match ← node.follow with
  | mapping _ entries => entries.mapM fun e => do return (← e.1.text, e.2)
  | node => if node.isVacant then return [] else failure

/-- The fields of a record whose fields have the given names: the entries of those names, none of
which may be repeated. -/
def fields (names : List String) (node : Node Nat) : Reader (List (String × Node Nat)) := do
  let known := (← node.entries).filter fun e => names.contains e.1
  if (known.map Prod.fst).eraseDups.length = known.length then return known else failure

end Node

end TypedSheets.Yaml
