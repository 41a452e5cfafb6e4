/-!
# Blank characters and trimming

The characters that count as blank space, and the removal of blank space from the two ends of a
text. All text algorithms of the library work on `List Char`; the versions on `String` wrap them.

## Main definitions

* `Text.isBlank` — the characters with the Unicode property `White_Space`.
* `Text.trimStart`, `Text.trimEnd`, `Text.trim` — a text without blank characters at its ends.

## Main results

* `Text.length_trim_le` — trimming never makes a text longer.
-/

namespace TypedSheets.Text

/-- The characters with the Unicode property `White_Space`. -/
def isBlank (c : Char) : Bool :=
  let n := c.toNat
  (9 ≤ n && n ≤ 13) || n == 0x20 || n == 0x85 || n == 0xA0 || n == 0x1680 ||
    (0x2000 ≤ n && n ≤ 0x200A) || n == 0x2028 || n == 0x2029 || n == 0x202F || n == 0x205F ||
    n == 0x3000

/-- A text without the blank characters it starts with. -/
def trimStart (text : List Char) : List Char :=
  text.dropWhile isBlank

/-- A text without the blank characters it ends with. -/
def trimEnd (text : List Char) : List Char :=
  (text.reverse.dropWhile isBlank).reverse

/-- A text without the blank characters at its two ends. -/
def trim (text : List Char) : List Char :=
  trimEnd (trimStart text)

/-- Dropping a run of characters never makes a text longer. -/
theorem length_dropWhile_le {α : Type} (p : α → Bool) (l : List α) :
    (l.dropWhile p).length ≤ l.length := by
  induction l with
  | nil => exact Nat.le_refl _
  | cons a l ih =>
    rw [List.dropWhile_cons]
    split
    · exact Nat.le_succ_of_le ih
    · exact Nat.le_refl _

/-- Dropping blanks at the start never makes a text longer. -/
theorem length_trimStart_le (text : List Char) : (trimStart text).length ≤ text.length :=
  length_dropWhile_le isBlank text

/-- Dropping blanks at the end never makes a text longer. -/
theorem length_trimEnd_le (text : List Char) : (trimEnd text).length ≤ text.length := by
  have h := length_dropWhile_le isBlank text.reverse
  simpa [trimEnd] using h

/-- Trimming never makes a text longer. -/
theorem length_trim_le (text : List Char) : (trim text).length ≤ text.length :=
  Nat.le_trans (length_trimEnd_le _) (length_trimStart_le _)

/-- A string without the blank characters at its two ends. -/
def trimmed (text : String) : String :=
  String.ofList (trim text.toList)

/-- Whether nothing but blank characters stands in a string. -/
def isEmptyOrBlank (text : String) : Bool :=
  text.toList.all isBlank

end TypedSheets.Text
