import TypedSheets.Yaml.Basic
import TypedSheets.Yaml.Token.Lexer

/-!
# Trees of tokens

The node that the tokens of a document denote. A node is a reference, or a scalar or a collection
with a name and a tag in front of it; where a name or a tag stands alone, or nothing does and
something could, the node is an empty scalar.

## Main definitions

* `Yaml.Spot` — where a node stands.
* `Yaml.Node.parse` — the node at the start of some tokens.
* `Yaml.Node.ofTokens?` — the node of a document.

## Design

A part hands over the tokens behind it, and the next part is read only if these are fewer. Every
part in fact takes a token, so the test never fails; it makes the recursion plain.
-/

namespace TypedSheets.Yaml

/-- Where a node stands. -/
inductive Spot where
  /-- Inside brackets. -/
  | flow
  /-- Where a block collection has to be indented further. -/
  | block
  /-- In an entry of a block mapping, where a sequence may stand in the column of the keys. -/
  | field
deriving DecidableEq, Inhabited

/-- The name and the tag at the start of some tokens, in either order, and the tokens behind them.
-/
def Properties.parse (handles : Handles) : List Token → Option (Properties String × List Token)
  | .anchor name :: .tag tag :: ts => do return (⟨some name, some (← handles.resolve? tag)⟩, ts)
  | .tag tag :: .anchor name :: ts => do return (⟨some name, some (← handles.resolve? tag)⟩, ts)
  | .anchor name :: ts => some (⟨some name, none⟩, ts)
  | .tag tag :: ts => do return (⟨none, some (← handles.resolve? tag)⟩, ts)
  | ts => some ({}, ts)

/-- The properties of a scalar that is written. The tag that is only an exclamation mark says
nothing about it. -/
def Properties.ofScalar {α : Type} (p : Properties α) : Properties α :=
  { p with tag := p.tag.filter (· != "!") }

namespace Node

/-- Whether a part of a flow sequence ends in front of a token. -/
def endsItem (t : Token) : Bool := [.flowEntry, .flowSequenceEnd].contains t

/-- Whether a part of an entry of a flow mapping ends in front of a token. -/
def endsFlowEntry (t : Token) : Bool := [.flowEntry, .flowMappingEnd].contains t

/-- Whether a part of an entry of a block mapping ends in front of a token. -/
def endsBlockEntry (t : Token) : Bool := [.key, .value, .blockEnd].contains t

/-- The node where nothing but a name or a tag is written. -/
def ofProperties? {α : Type} (p : Properties α) : Option (Node α) :=
  if p.anchor.isNone && p.tag.isNone then none else some (.scalar p .plain "")

mutual

/-- The node at the start of some tokens, and the tokens behind it. -/
def parse (handles : Handles) (spot : Spot) (ts : List Token) :
    Option (Node String × List Token) := do
  match ts with
  | .reference name :: rest => some (.reference name, rest)
  | ts =>
    let (p, rest) ← Properties.parse handles ts
    if _h : rest.length ≤ ts.length then parseContent handles spot p rest else none
termination_by 5 * ts.length + 2

/-- The node with some properties whose content is at the start of some tokens, and the tokens
behind it. -/
def parseContent (handles : Handles) (spot : Spot) (p : Properties String) (ts : List Token) :
    Option (Node String × List Token) :=
  match spot, ts with
  | _, .scalar style text :: rest => some (.scalar p.ofScalar style text, rest)
  | _, .flowSequence :: rest => parseItems handles p [] rest
  | _, .flowMapping :: rest => parseFlowEntries handles p [] rest
  | .field, .blockEntry :: rest => parseDashes handles p [] (.blockEntry :: rest)
  | .block, .blockSequence :: rest
  | .field, .blockSequence :: rest => parseBlockItems handles p [] rest
  | .block, .blockMapping :: rest
  | .field, .blockMapping :: rest => parseBlockEntries handles p [] rest
  | _, ts => (ofProperties? p).map (·, ts)
termination_by 5 * ts.length + 1

/-- The node at the start of some tokens, which is empty if `ends` holds of the first one, and the
tokens behind it. -/
def parseOrEmpty (handles : Handles) (spot : Spot) (ends : Token → Bool) (ts : List Token) :
    Option (Node String × List Token) :=
  if ts.head?.any ends then some (.empty, ts) else parse handles spot ts
termination_by 5 * ts.length + 3

/-- The node behind the colon at the start of some tokens, and the tokens behind it. Without a colon
it is empty. -/
def parseValue (handles : Handles) (spot : Spot) (ends : Token → Bool) (ts : List Token) :
    Option (Node String × List Token) :=
  match ts with
  | .value :: rest => parseOrEmpty handles spot ends rest
  | ts => some (.empty, ts)
termination_by 5 * ts.length + 4

/-- The items of a sequence in brackets, those read so far in reverse, and the tokens behind its
bracket. A key makes an item a mapping of one entry. -/
def parseItems (handles : Handles) (p : Properties String) (items : List (Node String))
    (ts : List Token) : Option (Node String × List Token) := do
  match ts with
  | .flowSequenceEnd :: rest => some (.sequence p items.reverse, rest)
  | ts =>
    let (item, rest) ← parseItem handles ts
    if h : rest.length < ts.length then
      match rest, h with
      | .flowEntry :: rest, h =>
        have := Nat.lt_of_succ_lt h
        parseItems handles p (item :: items) rest
      | .flowSequenceEnd :: rest, _ => some (.sequence p (item :: items).reverse, rest)
      | _, _ => none
    else none
termination_by 5 * ts.length + 4

/-- The item of a sequence in brackets at the start of some tokens, and the tokens behind it. If
nothing is written for a key, the token behind it goes with the key. -/
def parseItem (handles : Handles) (ts : List Token) : Option (Node String × List Token) := do
  match ts with
  | .key :: rest =>
    let (key, rest') ←
      match rest with
      | .value :: behind
      | .flowEntry :: behind
      | .flowSequenceEnd :: behind => some (.empty, behind)
      | rest => parse handles .flow rest
    if _h : rest'.length ≤ rest.length then
      let (value, rest') ← parseValue handles .flow endsItem rest'
      some (.mapping {} [(key, value)], rest')
    else none
  | ts => parse handles .flow ts
termination_by 5 * ts.length + 3

/-- The entries of a mapping in brackets, those read so far in reverse, and the tokens behind its
bracket. What is not marked as a key is one without a value. -/
def parseFlowEntries (handles : Handles) (p : Properties String)
    (entries : List (Node String × Node String)) (ts : List Token) :
    Option (Node String × List Token) := do
  match ts with
  | .flowMappingEnd :: rest => some (.mapping p entries.reverse, rest)
  | ts =>
    let (entry, rest) ← parseFlowEntry handles ts
    if h : rest.length < ts.length then
      match rest, h with
      | .flowEntry :: rest, h =>
        have := Nat.lt_of_succ_lt h
        parseFlowEntries handles p (entry :: entries) rest
      | .flowMappingEnd :: rest, _ => some (.mapping p (entry :: entries).reverse, rest)
      | _, _ => none
    else none
termination_by 5 * ts.length + 4

/-- The entry of a mapping in brackets at the start of some tokens, and the tokens behind it. -/
def parseFlowEntry (handles : Handles) (ts : List Token) :
    Option ((Node String × Node String) × List Token) := do
  match ts with
  | .key :: rest =>
    let (key, rest') ← parseOrEmpty handles .flow (fun t => t == .value || endsFlowEntry t) rest
    if _h : rest'.length ≤ rest.length then
      let (value, rest') ← parseValue handles .flow endsFlowEntry rest'
      some ((key, value), rest')
    else none
  | ts =>
    let (key, rest) ← parse handles .flow ts
    some ((key, .empty), rest)
termination_by 5 * ts.length + 3

/-- The items of a sequence that is indented, those read so far in reverse, and the tokens behind
its end. -/
def parseBlockItems (handles : Handles) (p : Properties String) (items : List (Node String))
    (ts : List Token) : Option (Node String × List Token) := do
  match ts with
  | .blockEntry :: rest =>
    let (item, rest') ←
      parseOrEmpty handles .block (fun t => t == .blockEntry || t == .blockEnd) rest
    if _h : rest'.length ≤ rest.length then parseBlockItems handles p (item :: items) rest'
    else none
  | .blockEnd :: rest => some (.sequence p items.reverse, rest)
  | _ => none
termination_by 5 * ts.length

/-- The items of a sequence in the column of the keys around it, those read so far in reverse, and
the tokens behind them. -/
def parseDashes (handles : Handles) (p : Properties String) (items : List (Node String))
    (ts : List Token) : Option (Node String × List Token) := do
  match ts with
  | .blockEntry :: rest =>
    let (item, rest') ←
      parseOrEmpty handles .block (fun t => t == .blockEntry || endsBlockEntry t) rest
    if _h : rest'.length ≤ rest.length then parseDashes handles p (item :: items) rest'
    else none
  | ts => some (.sequence p items.reverse, ts)
termination_by 5 * ts.length

/-- The entries of a mapping that is indented, those read so far in reverse, and the tokens behind
its end. -/
def parseBlockEntries (handles : Handles) (p : Properties String)
    (entries : List (Node String × Node String)) (ts : List Token) :
    Option (Node String × List Token) := do
  match ts with
  | .key :: rest =>
    let (key, rest') ← parseOrEmpty handles .field endsBlockEntry rest
    if _h : rest'.length ≤ rest.length then
      let (value, rest'') ← parseValue handles .field endsBlockEntry rest'
      if _h : rest''.length ≤ rest'.length then
        parseBlockEntries handles p ((key, value) :: entries) rest''
      else none
    else none
  | .blockEnd :: rest => some (.mapping p entries.reverse, rest)
  | _ => none
termination_by 5 * ts.length

end

/-! ### Documents -/

/-- The directives at the start of some tokens, and the tokens behind them. -/
def directives : List Token → List Directive × List Token
  | .directive d :: ts => let (ds, ts) := directives ts; (d :: ds, ts)
  | ts => ([], ts)

/-- Whether a document ends in front of a token. -/
def endsDocument : Token → Bool
  | .directive _ | .documentStart | .documentEnd => true
  | _ => false

/-- The root node at the start of the tokens of a document, and the tokens behind it. Without
anything in front of it the node must be written. -/
def root (ts : List Token) : Option (Node String × List Token) :=
  match directives ts with
  | ([], []) => some (.empty, [])
  | ([], .documentStart :: rest) => content .standard rest
  | ([], ts) => parse .standard .block ts
  | (ds, .documentStart :: rest) => do content (← Handles.ofDirectives? ds) rest
  | _ => none
where
  /-- The root node behind the mark in front of a document. -/
  content (handles : Handles) (ts : List Token) : Option (Node String × List Token) :=
    if (ts.head?.map endsDocument).getD true then some (.empty, ts) else parse handles .block ts

/-- The root node of tokens that are one document, behind which there is nothing else. -/
def ofTokens? (ts : List Token) : Option (Node String) := do
  let (node, rest) ← root ts
  if rest.all (· == .documentEnd) then some node else none

end Node

end TypedSheets.Yaml
