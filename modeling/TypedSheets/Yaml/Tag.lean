import TypedSheets.Text.Numeral
import TypedSheets.Yaml.Cursor

/-!
# Names, tags and directives

What may stand in front of a node, and in front of a document. A node may have a name, by which it
is referred to further down, and a tag, which says what it is. A tag is written with a handle that
stands for its first part; a directive in front of the document says for which.

## Main definitions

* `Yaml.name?` — the name at the start of a text.
* `Yaml.TagRef`, `Yaml.TagRef.read?` — a tag as it is written.
* `Yaml.Directive`, `Yaml.Directive.read?` — a directive.
* `Yaml.Handles` — what handles stand for, and `Yaml.Handles.resolve?`, the tag that is meant.
-/

namespace TypedSheets.Yaml

/-! ### Names -/

/-- A character of a name. -/
def isNameChar (c : Char) : Bool := c.isAlphanum || c == '_' || c == '-'

/-- The characters that may follow a name, blanks and line ends apart. -/
def nameEnds : List Char := ['?', ':', ',', ']', '}', '%', '@', Char.ofNat 0x60]

/-- The name at the start of a text, and the text behind it. -/
def name? (text : List Char) : Option (String × List Char) :=
  let name := text.takeWhile isNameChar
  let rest := text.dropWhile isNameChar
  if !name.isEmpty && (endsWord rest || rest.head?.any nameEnds.contains) then
    some (String.ofList name, rest)
  else none

/-! ### Identifiers -/

/-- A character of an identifier that may be escaped as well; commas and brackets are such only
where `brackets` is set. -/
def isTagChar (brackets : Bool) (c : Char) : Bool :=
  isNameChar c || ";/?:@&=+$.!~*'()".toList.contains c || (brackets && ",[]".toList.contains c)

/-- The number of octets that follow the first octet of a character. -/
def octetsBehind? (octet : Nat) : Option Nat :=
  if octet < 0x80 then some 0
  else if octet < 0xC0 then none
  else if octet < 0xE0 then some 1
  else if octet < 0xF0 then some 2
  else if octet < 0xF8 then some 3
  else none

/-- The characters of an identifier, those read so far in reverse, and the text behind it. An
escaped octet counts as the character of its number, and `due` further octets belong to the same
character. -/
def identifierFrom? (brackets : Bool) (read : List Char) (due : Nat) :
    List Char → Option (List Char × List Char)
  | '%' :: high :: low :: rest => do
    let octet ← Text.readNat 16 [high, low]
    let due ←
      if due = 0 then octetsBehind? octet
      else if 0x80 ≤ octet && octet < 0xC0 then some (due - 1)
      else none
    identifierFrom? brackets (Char.ofNat octet :: read) due rest
  | c :: rest =>
    if due ≠ 0 || c = '%' then none
    else if isTagChar brackets c then identifierFrom? brackets (c :: read) 0 rest
    else some (read.reverse, c :: rest)
  | [] => if due = 0 then some (read.reverse, []) else none

/-- The identifier at the start of a text, and the text behind it. A character of number zero ends
what counts of it. -/
def identifier? (brackets : Bool) (text : List Char) : Option (List Char × List Char) := do
  let (characters, rest) ← identifierFrom? brackets [] 0 text
  return (characters.takeWhile (· != Char.ofNat 0), rest)

/-- The identifier at the start of a text, if there is one, and the text behind it. -/
def someIdentifier? (brackets : Bool) (text : List Char) : Option (List Char × List Char) := do
  let (characters, rest) ← identifier? brackets text
  if rest.length < text.length then some (characters, rest) else none

/-! ### Tags -/

/-- A tag as it is written. -/
structure TagRef where
  /-- What stands for the first part; nothing, if the tag is written in full. -/
  handle : String
  /-- The other part. -/
  suffix : String
deriving DecidableEq, Inhabited

/-- A handle that starts with an exclamation mark, whether it ends with one too, and the text behind
it. -/
def handle? : List Char → Option (List Char × Bool × List Char)
  | '!' :: rest =>
    let name := rest.takeWhile isNameChar
    match rest.dropWhile isNameChar with
    | '!' :: rest => some ('!' :: name ++ ['!'], true, rest)
    | rest => some ('!' :: name, false, rest)
  | _ => none

namespace TagRef

/-- The tag at the start of a text, and the text behind it, whatever follows. A single exclamation
mark is a tag of its own. -/
def start? (text : List Char) : Option (TagRef × List Char) :=
  match text with
  | '!' :: '<' :: rest => do
    let (suffix, rest) ← someIdentifier? true rest
    match rest with
    | '>' :: rest => some (⟨"", String.ofList suffix⟩, rest)
    | _ => none
  | _ => do
    let (handle, isClosed, rest) ← handle? text
    if isClosed then
      let (suffix, rest) ← someIdentifier? false rest
      some (⟨String.ofList handle, String.ofList suffix⟩, rest)
    else
      let (more, rest) ← identifier? false rest
      let suffix := handle.drop 1 ++ more
      some (if suffix.isEmpty then ⟨"", "!"⟩ else ⟨"!", String.ofList suffix⟩, rest)

/-- The tag at the start of a text, and the text behind it. A tag ends a word; inside brackets a
comma may follow too. -/
def read? (flow : Bool) (text : List Char) : Option (TagRef × List Char) := do
  let (tag, rest) ← start? text
  if endsWord rest || (flow && rest.head? = some ',') then some (tag, rest) else none

end TagRef

/-! ### Directives -/

/-- What may be said in front of a document. -/
inductive Directive where
  /-- The version that the document is written in. -/
  | version (major minor : Nat)
  /-- The first part of the tags with a handle. -/
  | tag (handle first : String)
deriving DecidableEq, Inhabited

namespace Directive

/-- The number of at most nine digits at the start of a text, and the text behind it. -/
def number? (text : List Char) : Option (Nat × List Char) := do
  let digits := text.takeWhile Char.isDigit
  if digits.length ≤ 9 then return (← Text.readNat 10 digits, text.dropWhile Char.isDigit)
  else none

/-- What follows the name of a version directive, and the text behind it. -/
def version? (text : List Char) : Option (Directive × List Char) := do
  let (major, rest) ← number? text
  match rest with
  | '.' :: rest =>
    let (minor, rest) ← number? rest
    return (version major minor, rest)
  | _ => none

/-- What follows the name of a tag directive, and the text behind it. -/
def tag? (text : List Char) : Option (Directive × List Char) := do
  let (handle, isClosed, rest) ← handle? text
  if (isClosed || handle.length = 1) && rest.head?.any isGap then
    let (first, rest) ← someIdentifier? true (rest.dropWhile isGap)
    if endsWord rest then
      return (tag (String.ofList handle) (String.ofList first), rest)
    else none
  else none

/-- The directive behind a percent sign, and the text behind its line. -/
def read? (text : List Char) : Option (Directive × List Char) := do
  let name := text.takeWhile isNameChar
  let rest := text.dropWhile isNameChar
  if !endsWord rest then none
  else
    let content := rest.dropWhile isGap
    let (directive, rest) ←
      if String.ofList name = "YAML" then version? content
      else if String.ofList name = "TAG" then tag? content
      else none
    return (directive, ← restOfLine? rest)

end Directive

/-! ### What handles stand for -/

/-- What handles stand for. -/
abbrev Handles := List (String × String)

namespace Handles

/-- What handles stand for if nothing else is said. -/
def standard : Handles := [("!", "!"), ("!!", "tag:yaml.org,2002:")]

/-- The tag that is meant by one that is written. -/
def resolve? (handles : Handles) (tag : TagRef) : Option String :=
  if tag.handle = "" then some tag.suffix
  else (handles.lookup tag.handle).map (· ++ tag.suffix)

/-- Whether directives can stand together: no version or handle is given twice, and the version is
one of those that can be read. -/
def areCompatible (directives : List Directive) : Bool :=
  let versions := directives.filterMap fun d =>
    match d with
    | .version major minor => some (major, minor)
    | _ => none
  let handles := directives.filterMap fun d =>
    match d with
    | .tag handle _ => some handle
    | _ => none
  versions.length ≤ 1 && versions.all [(1, 1), (1, 2)].contains &&
    handles.eraseDups.length = handles.length

/-- What handles stand for behind some directives, if these can stand together. -/
def ofDirectives? (directives : List Directive) : Option Handles :=
  if areCompatible directives then
    some <| (directives.filterMap fun d =>
      match d with
      | .tag handle first => some (handle, first)
      | _ => none) ++ standard
  else none

end Handles

end TypedSheets.Yaml
