import TypedSheets.Yaml.Tag

/-!
# YAML tokens

The parts that a document is made of. Indentation is among them: where a block collection starts and
where it ends are tokens of their own, so that what the tokens mean does not depend on columns.

## Main definitions

* `Yaml.Style` — how a scalar is written.
* `Yaml.Token` — a part of a document.
-/

namespace TypedSheets.Yaml

/-- How a scalar is written. -/
inductive Style where
  /-- As it is. -/
  | plain
  /-- Between quotation marks. -/
  | quoted
  /-- As lines that keep their ends. -/
  | literal
  /-- As lines whose ends count as blanks. -/
  | folded
deriving DecidableEq, Inhabited

/-- A part of a document. -/
inductive Token where
  /-- A directive. -/
  | directive (directive : Directive)
  /-- The mark in front of a document. -/
  | documentStart
  /-- The mark behind a document. -/
  | documentEnd
  /-- The start of a sequence that is laid out by indentation. -/
  | blockSequence
  /-- The start of a mapping that is laid out by indentation. -/
  | blockMapping
  /-- The end of a collection that is laid out by indentation. -/
  | blockEnd
  /-- The bracket in front of a sequence. -/
  | flowSequence
  /-- The bracket behind a sequence. -/
  | flowSequenceEnd
  /-- The bracket in front of a mapping. -/
  | flowMapping
  /-- The bracket behind a mapping. -/
  | flowMappingEnd
  /-- The dash in front of an item. -/
  | blockEntry
  /-- The comma between two items. -/
  | flowEntry
  /-- The place of a key. -/
  | key
  /-- The colon in front of a value. -/
  | value
  /-- A reference to a node with a name. -/
  | reference (name : String)
  /-- The name of a node. -/
  | anchor (name : String)
  /-- The tag of a node. -/
  | tag (tag : TagRef)
  /-- A scalar. -/
  | scalar (style : Style) (text : String)
deriving DecidableEq, Inhabited

end TypedSheets.Yaml
