/-!
# Reading positions

The place up to which a document is read: the rest of its text, with the line and the column where
the rest starts. Indentation is a matter of columns, and what may be a key is a matter of lines.

## Main definitions

* `Yaml.isGap`, `Yaml.isLineEnd`, `Yaml.endsWord` — what stands between words.
* `Yaml.Mark`, `Yaml.Cursor` — a place in a text.
* `Yaml.Cursor.next`, `Yaml.Cursor.moveTo` — past a character, and to a place further on.
* `Yaml.Cursor.skip` — past blanks, line ends and comments.

## Main results

* `Yaml.Cursor.length_next_lt`, `Yaml.Cursor.length_skip_le` — moving on makes the rest shorter.
-/

namespace TypedSheets.Yaml

/-! ### Characters -/

/-- A blank inside a line. -/
def isGap (c : Char) : Bool := c == ' ' || c == '\t'

/-- The end of a line. The two separators of Unicode end lines too, and they are never taken for a
blank. -/
def isLineEnd (c : Char) : Bool := c == '\n' || c == '\u2028' || c == '\u2029'

/-- The byte order mark, which may stand at the start of a line. -/
def byteOrderMark : Char := '\uFEFF'

/-- A character that may stand in a document: no control character but tabs and line ends. -/
def isReadable (c : Char) : Bool :=
  let n := c.toNat
  n == 0x9 || n == 0xA || n == 0xD || (0x20 ≤ n && n ≤ 0x7E) || n == 0x85 ||
    (0xA0 ≤ n && n ≤ 0xFFFD) || 0x10000 ≤ n

/-- A text with a line feed in place of each of the line ends that mean the same: a carriage return,
one with a line feed behind it, and the next line character. -/
def unifyLineEnds : List Char → List Char
  | [] => []
  | '\r' :: '\n' :: rest => '\n' :: unifyLineEnds rest
  | '\r' :: rest => '\n' :: unifyLineEnds rest
  | '\u0085' :: rest => '\n' :: unifyLineEnds rest
  | c :: rest => c :: unifyLineEnds rest

/-- Whether a word ends where a text starts. -/
def endsWord : List Char → Bool
  | [] => true
  | c :: _ => isGap c || isLineEnd c

/-- The text behind three equal characters that stand alone. -/
def afterMarker (mark : Char) : List Char → Option (List Char)
  | a :: b :: c :: rest =>
    if a = mark && b = mark && c = mark && endsWord rest then some rest else none
  | _ => none

/-- Whether a text starts with one of the two marks between documents. -/
def startsWithMarker (text : List Char) : Bool :=
  (afterMarker '-' text).isSome || (afterMarker '.' text).isSome

/-- The text behind a comment, if one starts here. -/
def afterComment : List Char → List Char
  | '#' :: rest => rest.dropWhile (!isLineEnd ·)
  | text => text

/-- The end of the line, if nothing but blanks and a comment stands before it. -/
def restOfLine? (text : List Char) : Option (List Char) :=
  let rest := afterComment (text.dropWhile isGap)
  if (rest.head?.map isLineEnd).getD true then some rest else none

/-! ### Places -/

/-- Where a place lies in its text. -/
structure Mark where
  /-- The line, counted from zero. -/
  line : Nat := 0
  /-- The number of characters in front of the place in its line. -/
  column : Nat := 0
  /-- The number of octets that these characters take in UTF-8. -/
  octets : Nat := 0
deriving DecidableEq, Inhabited

/-- Where the place behind a character lies. -/
def Mark.next (m : Mark) (c : Char) : Mark :=
  if isLineEnd c then { line := m.line + 1 }
  else { m with column := m.column + 1, octets := m.octets + c.utf8Size }

/-- A place in a text. -/
structure Cursor extends Mark where
  /-- The rest of the text. -/
  rest : List Char
deriving Inhabited

namespace Cursor

/-- The number of characters that are left. -/
def length (c : Cursor) : Nat := c.rest.length

/-- The place behind the next character. -/
def next (c : Cursor) : Cursor :=
  match c.rest with
  | [] => c
  | ch :: rest => ⟨c.toMark.next ch, rest⟩

/-- The place further on where the rest is `rest`. -/
def moveTo (c : Cursor) (rest : List Char) : Cursor :=
  ⟨(c.rest.take (c.rest.length - rest.length)).foldl Mark.next c.toMark, rest⟩

/-- Past blanks, line ends, byte order marks and comments. `tabs` says whether tabs count as blanks
in this line, and `flow` whether they do in the lines behind it. -/
def skipFrom (flow : Bool) : (tabs comment : Bool) → Mark → List Char → Cursor
  | _, _, m, [] => ⟨m, []⟩
  | tabs, comment, m, c :: rest =>
    if isLineEnd c then skipFrom flow flow false (m.next c) rest
    else if comment || c = ' ' || (c = '\t' && tabs) || (c = byteOrderMark && m.column = 0) then
      skipFrom flow tabs comment (m.next c) rest
    else if c = '#' then skipFrom flow tabs true (m.next c) rest
    else ⟨m, c :: rest⟩

/-- The place of what is written next. Inside brackets, where `flow` is set, tabs count as blanks,
and outside of them only where no key may start. -/
def skip (flow keyAllowed : Bool) (c : Cursor) : Cursor :=
  skipFrom flow (flow || !keyAllowed) false c.toMark c.rest

theorem length_next_lt {c : Cursor} {ch : Char} {rest : List Char} (h : c.rest = ch :: rest) :
    c.next.length < c.length := by
  simp [next, length, h]

theorem length_skipFrom_le (flow tabs comment : Bool) (m : Mark) (text : List Char) :
    (skipFrom flow tabs comment m text).length ≤ text.length := by
  induction text generalizing tabs comment m with
  | nil => simp [skipFrom, length]
  | cons c rest ih =>
    unfold skipFrom
    split
    · exact Nat.le_succ_of_le (ih ..)
    · split
      · exact Nat.le_succ_of_le (ih ..)
      · split
        · exact Nat.le_succ_of_le (ih ..)
        · exact Nat.le_refl _

theorem length_skip_le (flow keyAllowed : Bool) (c : Cursor) :
    (c.skip flow keyAllowed).length ≤ c.length :=
  length_skipFrom_le ..

end Cursor

end TypedSheets.Yaml
