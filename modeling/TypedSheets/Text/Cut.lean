/-!
# Cutting texts

Cutting a text at a character, and replacing one text by another inside a third.

## Main definitions

* `Text.cutAt` — the two sides of the first occurrence of a character.
* `Text.cutAll` — the pieces between all occurrences of a character.
* `Text.stripPrefix`, `Text.stripSuffix` — a text without a known start or end.
* `Text.replaceAll` — every occurrence of a text replaced, from left to right.
* `Text.joinWith` — pieces put together with a separator between them.
-/

namespace TypedSheets.Text

/-- The parts before and after the first `mark`, if there is one. -/
def cutAt (mark : Char) : List Char → Option (List Char × List Char)
  | [] => none
  | c :: rest =>
    if c = mark then some ([], rest)
    else (cutAt mark rest).map fun (before, after) => (c :: before, after)

/-- The pieces of a text between the occurrences of `mark`; never empty. -/
def cutAll (mark : Char) : List Char → List (List Char)
  | [] => [[]]
  | c :: rest =>
    if c = mark then [] :: cutAll mark rest
    else match cutAll mark rest with
      | [] => [[c]]
      | piece :: pieces => (c :: piece) :: pieces

/-- What follows `start`, if the text starts with it. -/
def stripPrefix : (start text : List Char) → Option (List Char)
  | [], text => some text
  | _ :: _, [] => none
  | a :: start, c :: text => if a = c then stripPrefix start text else none

/-- What stands before the last character, if that is `mark`. -/
def stripSuffix (mark : Char) (text : List Char) : Option (List Char) :=
  if text.getLast? = some mark then some text.dropLast else none

/-- The rest after a stripped start is no longer than the text. -/
theorem length_stripPrefix {start text rest : List Char} (h : stripPrefix start text = some rest) :
    rest.length + start.length = text.length := by
  induction start generalizing text with
  | nil => simp [stripPrefix] at h; simp [h]
  | cons a start ih =>
    cases text with
    | nil => simp [stripPrefix] at h
    | cons c text =>
      simp only [stripPrefix] at h
      split at h
      · have := ih h
        simp only [List.length_cons]; omega
      · simp at h

/-- Removing the last character makes a text shorter by one. -/
theorem length_stripSuffix {mark : Char} {text rest : List Char}
    (h : stripSuffix mark text = some rest) : rest.length + 1 = text.length := by
  unfold stripSuffix at h
  split at h
  · rename_i hlast
    cases text with
    | nil => simp at hlast
    | cons c text => simp only [Option.some.injEq] at h; subst h; simp
  · simp at h

/-- Every occurrence of `pattern` replaced, read from left to right, after passing over the first
`skip` characters, which belong to an occurrence already replaced. -/
def replaceFrom (pattern replacement : List Char) : (skip : Nat) → List Char → List Char
  | _, [] => []
  | skip + 1, _ :: rest => replaceFrom pattern replacement skip rest
  | 0, c :: rest =>
    if pattern.isPrefixOf (c :: rest) then
      replacement ++ replaceFrom pattern replacement (pattern.length - 1) rest
    else c :: replaceFrom pattern replacement 0 rest

/-- Every occurrence of a text that is not empty replaced, read from left to right. -/
def replaceAll (pattern replacement text : List Char) : List Char :=
  replaceFrom pattern replacement 0 text

/-- Whether `pattern` occurs in a text. -/
def occursIn (pattern : List Char) : List Char → Bool
  | [] => pattern.isEmpty
  | c :: rest => pattern.isPrefixOf (c :: rest) || occursIn pattern rest

/-- Strings put together with a separator between them. -/
def joinWith (separator : String) (pieces : List String) : String :=
  separator.intercalate pieces

end TypedSheets.Text
