import TypedSheets.Text.WordTable

/-!
# Words, digits and identifiers

The character classes that names are made of. A word character may stand anywhere in a name; an
identifier starts with an ASCII letter or an underscore and goes on with word characters.

## Main definitions

* `Text.isWordChar`, `Text.isDecimalDigit` — the two Unicode classes.
* `Text.isIdentifier` — the names of tables, columns and enums inside annotations.
-/

namespace TypedSheets.Text

/-- Whether a code point lies in one of the ranges. -/
def inRanges (ranges : List (Nat × Nat)) (n : Nat) : Bool :=
  ranges.any fun r => r.1 ≤ n && n ≤ r.2

/-- An ASCII letter or an underscore. -/
def isNameStart (c : Char) : Bool :=
  c.isAlpha || c == '_'

/-- A character that may stand in a word: a letter, a mark, a decimal digit, connector punctuation
or a join control. -/
def isWordChar (c : Char) : Bool :=
  if c.toNat < 128 then c.isAlphanum || c == '_' else inRanges wordRanges c.toNat

/-- A decimal digit of any script. -/
def isDecimalDigit (c : Char) : Bool :=
  if c.toNat < 128 then c.isDigit else inRanges digitRanges c.toNat

/-- An identifier: an ASCII letter or an underscore, then word characters. -/
def isIdentifier : List Char → Bool
  | [] => false
  | c :: rest => isNameStart c && rest.all isWordChar

/-- A word: one or more word characters. -/
def isWord (text : List Char) : Bool :=
  !text.isEmpty && text.all isWordChar

end TypedSheets.Text
