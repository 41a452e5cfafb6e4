import TypedSheets.Yaml.Scalar.Gap

/-!
# Plain scalars

Texts that are written as they are. Where such a text may start and where it ends depends on the
characters that mean something else, and these are more inside brackets.

## Main definitions

* `Yaml.Plain.starts` — whether a plain scalar starts here.
* `Yaml.Plain.read` — the plain scalar at a place.
-/

namespace TypedSheets.Yaml.Plain

/-- The characters with which no plain scalar starts, unless they are followed by something. -/
def indicators : List Char :=
  ['-', '?', ':', ',', '[', ']', '{', '}', '#', '&', '*', '!', '|', '>', '\'', '"', '%', '@',
    Char.ofNat 0x60]

/-- The characters that end a plain scalar inside brackets. -/
def flowMarks : List Char := [',', '[', ']', '{', '}']

/-- Whether a plain scalar starts where a text starts. -/
def starts (flow : Bool) : List Char → Bool
  | [] => false
  | c :: rest =>
    if c = '-' then !endsWord rest
    else if c = '?' || c = ':' then !flow && !endsWord rest
    else !endsWord [c] && !indicators.contains c

/-- Whether a plain scalar ends before a character, behind a gap. `least` is the least column of a
line that continues the scalar. -/
def ends (flow : Bool) (least column : Nat) (gap : Gap) (c : Char) (rest : List Char) : Bool :=
  (gap.isSome && c == '#') || (gap.isLines && !flow && column < least) ||
    (column == 0 && startsWithMarker (c :: rest)) || (c == ':' && endsWord rest) ||
    (flow && flowMarks.contains c)

/-- Whether a colon stands inside brackets where it is neither part of a word nor behind a key. -/
def isStrayColon (flow : Bool) (c : Char) (rest : List Char) : Bool :=
  flow && c == ':' && rest.head?.any (· ∈ '?' :: flowMarks)

/-- What is read of a plain scalar. -/
structure Result where
  /-- The characters. -/
  text : List Char
  /-- The place behind the blanks and line ends that follow. -/
  place : Cursor
  /-- Whether a line ends behind the scalar. -/
  endsLine : Bool

/-- The characters of a plain scalar, those read so far in reverse. No tab may indent a line that
continues the scalar. -/
def readFrom (flow : Bool) (least : Nat) (read : List Char) (gap : Gap) (m : Mark) :
    List Char → Option Result
  | [] => some ⟨read.reverse, ⟨m, []⟩, gap.isLines⟩
  | c :: rest =>
    if isLineEnd c then readFrom flow least read (gap.lineEnd c) (m.next c) rest
    else if isGap c then
      if c = '\t' && gap.isLines && m.column < least then none
      else readFrom flow least read (gap.blank c) (m.next c) rest
    else if ends flow least m.column gap c rest then
      some ⟨read.reverse, ⟨m, c :: rest⟩, gap.isLines⟩
    else if isStrayColon flow c rest then none
    else readFrom flow least (c :: gap.reversed ++ read) .none (m.next c) rest

/-- The plain scalar at a place. -/
def read (flow : Bool) (least : Nat) (c : Cursor) : Option Result :=
  readFrom flow least [] .none c.toMark c.rest

end TypedSheets.Yaml.Plain
