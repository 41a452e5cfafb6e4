import TypedSheets.Keyed
import TypedSheets.Yaml.Parser

/-!
# YAML documents

A document whose nodes refer to others by numbers. The number of a named node is the number of names
given before it, where a name that is given again counts once; it goes to the name, which means that
node from then on. Two nodes may so come by one number, which then stands for the last of them.

## Main definitions

* `Yaml.Node.number?` — a tree with numbers in place of names.
* `Yaml.Document` — a tree with numbers, and the nodes these stand for.
* `Yaml.Document.parse` — the document that a text denotes.
-/

namespace TypedSheets.Yaml

/-- The names given so far, with their numbers. -/
abbrev Names := Keyed String Nat

/-- Gives a name to the next node, whose number is handed over. -/
def Names.give (name : String) : StateT Names Option Nat := do
  let names ← get
  set (names.insert name names.size)
  return names.size

/-- The number of a name. -/
def Names.number? (name : String) : StateT Names Option Nat := do
  ((← get).find? name).getDM failure

/-- The properties of the next node, with the number of its name. -/
def Properties.number? (p : Properties String) : StateT Names Option (Properties Nat) := do
  return { anchor := ← p.anchor.mapM Names.give, tag := p.tag }

namespace Node

mutual

/-- The tree with numbers in place of names, if every name that is referred to is given before. -/
def number? : Node String → StateT Names Option (Node Nat)
  | reference name => do return reference (← Names.number? name)
  | scalar p style text => do return scalar (← p.number?) style text
  | sequence p items => do return sequence (← p.number?) (← numberItems? items)
  | mapping p entries => do return mapping (← p.number?) (← numberEntries? entries)

/-- The items of a sequence with numbers in place of names. -/
def numberItems? : List (Node String) → StateT Names Option (List (Node Nat))
  | [] => return []
  | item :: items => do return (← item.number?) :: (← numberItems? items)

/-- The entries of a mapping with numbers in place of names. -/
def numberEntries? : List (Node String × Node String) →
    StateT Names Option (List (Node Nat × Node Nat))
  | [] => return []
  | (key, value) :: entries => do
    return (← key.number?, ← value.number?) :: (← numberEntries? entries)

end

end Node

/-- A document. -/
structure Document where
  /-- The root node. -/
  root : Node Nat
  /-- The nodes that numbers stand for. -/
  targets : Keyed Nat (Node Nat)
  /-- How many times references may be followed. -/
  maxFollowed : Nat

namespace Document

/-- The document with a root node: a number stands for the last node that has it, and references may
be followed a hundred times for every mark in the tree. -/
def ofRoot (root : Node Nat) : Document where
  root
  targets := .ofList <| root.nodes.filterMap fun n => n.anchor?.map (·, n)
  maxFollowed := 100 * root.weight

/-- The document that a text denotes. -/
def parse (text : String) : Option Document := do
  let node ← Node.ofTokens? (← Token.scan text.toList)
  return ofRoot (← node.number?.run' .empty)

end Document

end TypedSheets.Yaml
