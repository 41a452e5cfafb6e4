import TypedSheets.Text.Numeral
import TypedSheets.Yaml.Scalar.Gap

/-!
# Quoted scalars

Texts between quotation marks. Between single ones a mark is written twice; between double ones a
backslash escapes what follows, which may be the end of a line.

## Main definitions

* `Yaml.Quoted.escaped?` — the character that is escaped behind a backslash.
* `Yaml.Quoted.read` — the text between two quotation marks.
-/

namespace TypedSheets.Yaml.Quoted

/-- The character that a letter behind a backslash stands for. -/
def escapes : List (Char × Char) :=
  [('0', Char.ofNat 0), ('a', Char.ofNat 7), ('b', Char.ofNat 8), ('t', '\t'), ('\t', '\t'),
    ('n', '\n'), ('v', Char.ofNat 11), ('f', Char.ofNat 12), ('r', '\r'), ('e', Char.ofNat 27),
    (' ', ' '), ('"', '"'), ('/', '/'), ('\\', '\\'), ('N', Char.ofNat 0x85),
    ('_', Char.ofNat 0xA0), ('L', Char.ofNat 0x2028), ('P', Char.ofNat 0x2029)]

/-- The number of hexadecimal digits behind a letter behind a backslash. -/
def escapeDigits (c : Char) : Option Nat :=
  if c = 'x' then some 2 else if c = 'u' then some 4 else if c = 'U' then some 8 else none

/-- The character of a number. -/
def character? (n : Nat) : Option Char :=
  if n.isValidChar then some (Char.ofNat n) else none

/-- The character that is escaped where a text behind a backslash starts, and the number of
characters it takes. -/
def escaped? : List Char → Option (Char × Nat)
  | [] => none
  | c :: rest =>
    match escapeDigits c with
    | some n =>
      if (rest.take n).length = n then
        ((Text.readNat 16 (rest.take n)).bind character?).map fun ch => (ch, n + 1)
      else none
    | none => (escapes.lookup c).map fun ch => (ch, 1)

/-- The characters of a quoted scalar behind its first quotation mark, those read so far in reverse,
and the place behind the last mark. `passing` characters belong to what is read already. -/
def readFrom (double : Bool) (read : List Char) (gap : Gap) (m : Mark) :
    (passing : Nat) → List Char → Option (List Char × Cursor)
  | _, [] => none
  | passing + 1, c :: rest => readFrom double read gap (m.next c) passing rest
  | 0, c :: rest =>
    let word := gap.reversed ++ read
    if m.column = 0 && startsWithMarker (c :: rest) then none
    else if isLineEnd c then readFrom double read (gap.lineEnd c) (m.next c) 0 rest
    else if isGap c then readFrom double read (gap.blank c) (m.next c) 0 rest
    else if double then
      if c = '"' then some (word.reverse, ⟨m.next c, rest⟩)
      else if c = '\\' then
        match rest with
        | [] => none
        | e :: behind =>
          if isLineEnd e then readFrom double word (.lines none []) (m.next e) 0 behind
          else match escaped? (e :: behind) with
            | some (ch, n) => readFrom double (ch :: word) .none (m.next c) n (e :: behind)
            | none => none
      else readFrom double (c :: word) .none (m.next c) 0 rest
    else if c = '\'' then
      match rest with
      | '\'' :: behind => readFrom double ('\'' :: word) .none ((m.next c).next c) 0 behind
      | rest => some (word.reverse, ⟨m.next c, rest⟩)
    else readFrom double (c :: word) .none (m.next c) 0 rest

/-- The text between two quotation marks, the first of which stands at a place, and the place behind
the second. -/
def read (double : Bool) (c : Cursor) : Option (List Char × Cursor) :=
  readFrom double [] .none c.next.toMark 0 c.next.rest

end TypedSheets.Yaml.Quoted
