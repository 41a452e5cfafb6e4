import TypedSheets.Yaml.Scalar.Block
import TypedSheets.Yaml.Scalar.Plain
import TypedSheets.Yaml.Scalar.Quoted
import TypedSheets.Yaml.Token

/-!
# Reading tokens

The tokens of a text. Where a mapping starts shows only at the colon behind its first key, so that
the places where a key may start are remembered: when a colon follows in time, the tokens for the
key and for the mapping are put there. A block collection ends where a line starts further to the
left.

## Main definitions

* `Yaml.Candidate` — a place where a key may start.
* `Yaml.Lexer` — what is known while a text is read.
* `Yaml.Lexer.token?` — reads the next token.
* `Yaml.Token.scan` — the tokens of a text.

## Design

Every token takes at least one character, so that a budget of one step for each character, and one
for the end of the text, is never used up.
-/

namespace TypedSheets.Yaml

/-- A place where a key may start. -/
structure Candidate where
  /-- The number of tokens in front of the key. -/
  position : Nat
  /-- Where the key starts. -/
  mark : Mark
  /-- Whether nothing but a key may stand there. -/
  isRequired : Bool
deriving DecidableEq, Inhabited

namespace Candidate

/-- The greatest number of octets from the start of a key to the colon behind it. -/
def maxOctets : Nat := 1024

/-- Whether a place is too far off for the colon: in another line or behind too many octets. -/
def isStale (k : Candidate) (m : Mark) : Bool :=
  k.mark.line < m.line || k.mark.octets + maxOctets < m.octets

end Candidate

/-- What is known while a text is read. -/
structure Lexer where
  /-- The tokens read so far. -/
  tokens : Array Token := #[]
  /-- The place up to which the text is read. -/
  place : Cursor
  /-- The columns of the open block collections, the innermost first. -/
  columns : List Nat := []
  /-- Where a key may start that is read already, within the innermost brackets. -/
  candidate : Option Candidate := none
  /-- The same within the brackets around those. There is one for every open bracket. -/
  outer : List (Option Candidate) := []
  /-- Whether a key may start at the place. -/
  keyAllowed : Bool := true
deriving Inhabited

namespace Lexer

/-- Whether brackets are open. -/
def inFlow (s : Lexer) : Bool := !s.outer.isEmpty

/-- The least column of what belongs to the innermost block collection without ending it. -/
def least (s : Lexer) : Nat := (s.columns.head?.map (· + 1)).getD 0

/-- With one more token. -/
def push (s : Lexer) (t : Token) : Lexer := { s with tokens := s.tokens.push t }

/-- With a token put behind the first `position` ones. -/
def insert (s : Lexer) (position : Nat) (t : Token) : Lexer :=
  { s with tokens := s.tokens.insertIdxIfInBounds position t }

/-- At another place. -/
def goTo (s : Lexer) (place : Cursor) : Lexer := { s with place }

/-- Whether a key may start at the place from now on. -/
def allowKey (s : Lexer) (keyAllowed : Bool) : Lexer := { s with keyAllowed }

/-! ### Places of keys -/

/-- The candidate that is left at a place: none, if that is too far off, which must not happen to a
required key. -/
def refresh? (m : Mark) : Option Candidate → Option (Option Candidate)
  | some k =>
    if k.isStale m then if k.isRequired then none else some none else some (some k)
  | none => some none

/-- Gives up the candidates that the place is too far off for. -/
def dropStale? (s : Lexer) : Option Lexer := do
  return { s with
    candidate := ← refresh? s.place.toMark s.candidate
    outer := ← s.outer.mapM (refresh? s.place.toMark) }

/-- Gives up the innermost candidate, which must not be required. -/
def dropCandidate? (s : Lexer) : Option Lexer :=
  if s.candidate.any (·.isRequired) then none else some { s with candidate := none }

/-- Remembers the place as one where a key may start, if so. A key is required where an entry of the
innermost block collection has to start. -/
def addCandidate? (s : Lexer) : Option Lexer :=
  if s.keyAllowed then do
    let s ← s.dropCandidate?
    let isRequired := !s.inFlow && s.columns.head? = some s.place.column
    return { s with
      candidate := some ⟨s.tokens.size, s.place.toMark, isRequired⟩ }
  else some s

/-! ### Indentation -/

/-- Ends the block collections whose columns are at least `least`; brackets keep them open. -/
def unindent (s : Lexer) (least : Nat) : Lexer :=
  if s.inFlow then s
  else
    let ended := s.columns.takeWhile (least ≤ ·)
    { s with
      columns := s.columns.dropWhile (least ≤ ·)
      tokens := s.tokens ++ ended.map fun _ => Token.blockEnd }

/-- Starts a block collection behind the first `position` tokens, if an entry in `column` is its
first. -/
def openAt (s : Lexer) (position column : Nat) (collection : Token) : Lexer :=
  if !s.inFlow && s.least ≤ column then
    { s.insert position collection with columns := column :: s.columns }
  else s

/-- Starts a block collection, if an entry at the place is its first. Outside of brackets an entry
stands where a key may. -/
def open? (s : Lexer) (collection : Token) : Option Lexer :=
  if s.inFlow || s.keyAllowed then some (s.openAt s.tokens.size s.place.column collection)
  else none

/-! ### Tokens -/

/-- Reads a token that is a single character. -/
def single (s : Lexer) (t : Token) : Lexer := (s.push t).goTo s.place.next

/-- Reads a directive. -/
def directive? (s : Lexer) : Option Lexer := do
  let s ← (s.unindent 0).dropCandidate?
  let (directive, rest) ← Directive.read? s.place.next.rest
  return ((s.push (.directive directive)).goTo (s.place.moveTo rest).next).allowKey false

/-- Reads a mark between documents. -/
def marker? (s : Lexer) (t : Token) : Option Lexer := do
  let s ← (s.unindent 0).dropCandidate?
  return ((s.push t).goTo (s.place.moveTo (s.place.rest.drop 3))).allowKey false

/-- Reads an opening bracket. -/
def bracket? (s : Lexer) (t : Token) : Option Lexer := do
  let s ← s.addCandidate?
  return { (s.single t).allowKey true with candidate := none, outer := s.candidate :: s.outer }

/-- Reads a closing bracket. -/
def closing? (s : Lexer) (t : Token) : Option Lexer := do
  let s ← s.dropCandidate?
  let s := (s.single t).allowKey false
  match s.outer with
  | candidate :: outer => return { s with candidate, outer }
  | [] => return s

/-- Reads a comma. -/
def comma? (s : Lexer) : Option Lexer := do
  let s ← s.dropCandidate?
  return (s.single .flowEntry).allowKey true

/-- Reads a dash in front of an item. -/
def dash? (s : Lexer) : Option Lexer := do
  let s ← (← s.open? .blockSequence).dropCandidate?
  return (s.single .blockEntry).allowKey true

/-- Reads a question mark in front of a key. -/
def question? (s : Lexer) : Option Lexer := do
  let s ← (← s.open? .blockMapping).dropCandidate?
  return (s.single .key).allowKey !s.inFlow

/-- Reads a colon in front of a value. The key stands at the candidate, if there is one. -/
def colon? (s : Lexer) : Option Lexer := do
  match s.candidate with
  | some k =>
    let s := (s.insert k.position .key).openAt k.position k.mark.column .blockMapping
    return { (s.single .value).allowKey false with candidate := none }
  | none =>
    let s ← s.open? .blockMapping
    return (s.single .value).allowKey !s.inFlow

/-- Reads a reference or the name of a node, behind its mark. -/
def name? (s : Lexer) (token : String → Token) : Option Lexer := do
  let s ← s.addCandidate?
  let (name, rest) ← Yaml.name? s.place.next.rest
  return ((s.push (token name)).goTo (s.place.moveTo rest)).allowKey false

/-- Reads a tag. -/
def tag? (s : Lexer) : Option Lexer := do
  let s ← s.addCandidate?
  let (tag, rest) ← TagRef.read? s.inFlow s.place.rest
  return ((s.push (.tag tag)).goTo (s.place.moveTo rest)).allowKey false

/-- Reads a block of lines. -/
def block? (s : Lexer) (style : Style) : Option Lexer := do
  let s ← s.dropCandidate?
  let (text, place) ← Block.read (style = .literal) s.least s.place
  return ((s.push (.scalar style (String.ofList text))).goTo place).allowKey true

/-- Reads a text between quotation marks. -/
def quoted? (s : Lexer) (double : Bool) : Option Lexer := do
  let s ← s.addCandidate?
  let (text, place) ← Quoted.read double s.place
  return ((s.push (.scalar .quoted (String.ofList text))).goTo place).allowKey false

/-- Reads a plain scalar. A key may start behind it if a line does. -/
def plain? (s : Lexer) : Option Lexer := do
  let s ← s.addCandidate?
  let r ← Plain.read s.inFlow s.least s.place
  return ((s.push (.scalar .plain (String.ofList r.text))).goTo r.place).allowKey r.endsLine

/-- Reads the next token, whose first character is `c`, with `rest` behind it. -/
def token? (s : Lexer) (c : Char) (rest : List Char) : Option Lexer :=
  let isAlone := s.inFlow || endsWord rest
  let atMargin := s.place.column = 0
  if atMargin && c = '%' then s.directive?
  else if atMargin && (afterMarker '-' (c :: rest)).isSome then s.marker? .documentStart
  else if atMargin && (afterMarker '.' (c :: rest)).isSome then s.marker? .documentEnd
  else if c = '[' then s.bracket? .flowSequence
  else if c = '{' then s.bracket? .flowMapping
  else if c = ']' then s.closing? .flowSequenceEnd
  else if c = '}' then s.closing? .flowMappingEnd
  else if c = ',' then s.comma?
  else if c = '-' && endsWord rest then s.dash?
  else if c = '?' && isAlone then s.question?
  else if c = ':' && isAlone then s.colon?
  else if c = '*' then s.name? .reference
  else if c = '&' then s.name? .anchor
  else if c = '!' then s.tag?
  else if c = '|' && !s.inFlow then s.block? .literal
  else if c = '>' && !s.inFlow then s.block? .folded
  else if c = '\'' then s.quoted? false
  else if c = '"' then s.quoted? true
  else if Plain.starts s.inFlow (c :: rest) then s.plain?
  else none

/-- Moves on to what is written next. Outside of brackets a key may start in a new line. -/
def skip (s : Lexer) : Lexer :=
  let place := s.place.skip s.inFlow s.keyAllowed
  { s with place, keyAllowed := s.keyAllowed || (!s.inFlow && s.place.line < place.line) }

/-- The tokens of the whole text, read in at most `budget` steps. -/
def run? : (budget : Nat) → Lexer → Option (List Token)
  | 0, _ => none
  | budget + 1, s => do
    let s ← s.skip.dropStale?
    match s.place.rest with
    | [] => return (← (s.unindent 0).dropCandidate?).tokens.toList
    | c :: rest => run? budget (← (s.unindent (s.place.column + 1)).token? c rest)

end Lexer

/-- The tokens of a text. -/
def Token.scan (text : List Char) : Option (List Token) :=
  if text.all isReadable then
    Lexer.run? (text.length + 1) { place := ⟨{}, unifyLineEnds text⟩ }
  else none

end TypedSheets.Yaml
