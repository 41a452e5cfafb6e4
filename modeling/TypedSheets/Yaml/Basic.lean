import TypedSheets.Yaml.Token

/-!
# YAML nodes

A YAML document as a tree. A scalar keeps the text it was written with and the style it was written
in; what it means is up to the reader of the node. Nodes may be referred to from further down, by
names or by whatever stands for them.

## Main definitions

* `Yaml.Properties`, `Yaml.Node` — scalars, sequences, mappings and references to nodes.
* `Yaml.Node.nodes` — all nodes of a tree.
* `Yaml.Node.weight` — the number of marks that it takes to write a tree down.
-/

namespace TypedSheets.Yaml

/-- What stands in front of a node; `α` is what nodes are referred to by. -/
structure Properties (α : Type) where
  /-- What the node is referred to by. -/
  anchor : Option α := none
  /-- What the node is said to be. -/
  tag : Option String := none
deriving DecidableEq, Inhabited

/-- A node of a document; `α` is what nodes are referred to by. -/
inductive Node (α : Type) where
  /-- A reference to a node. -/
  | reference (target : α)
  /-- A text. -/
  | scalar (properties : Properties α) (style : Style) (text : String)
  /-- Nodes in order. -/
  | sequence (properties : Properties α) (items : List (Node α))
  /-- Nodes with keys, which are nodes too. -/
  | mapping (properties : Properties α) (entries : List (Node α × Node α))
deriving Inhabited

namespace Node

variable {α : Type}

/-- The node where nothing is written. -/
def empty : Node α := scalar {} .plain ""

/-- What a node is referred to by. -/
def anchor? : Node α → Option α
  | reference _ => none
  | scalar p _ _ => p.anchor
  | sequence p _ => p.anchor
  | mapping p _ => p.anchor

/-- Whether nothing is written in place of a collection. -/
def isVacant : Node α → Bool
  | scalar _ style text => text.isEmpty && style == .plain
  | _ => false

mutual

/-- All nodes of a tree, in the order in which they are written. -/
def nodes : Node α → List (Node α)
  | reference target => [reference target]
  | scalar p style text => [scalar p style text]
  | sequence p items => sequence p items :: itemNodes items
  | mapping p entries => mapping p entries :: entryNodes entries

/-- All nodes of the items of a sequence. -/
def itemNodes : List (Node α) → List (Node α)
  | [] => []
  | item :: items => item.nodes ++ itemNodes items

/-- All nodes of the entries of a mapping. -/
def entryNodes : List (Node α × Node α) → List (Node α)
  | [] => []
  | (key, value) :: entries => key.nodes ++ value.nodes ++ entryNodes entries

end

/-- The number of marks that it takes to write a tree down: one for a scalar and a reference, and
one for each end of a collection. -/
def weight (n : Node α) : Nat :=
  let isCollection : Node α → Bool
    | sequence .. => true
    | mapping .. => true
    | _ => false
  n.nodes.length + n.nodes.countP isCollection

end Node

end TypedSheets.Yaml
