import TypedSheets.Failure

/-!
# Brackets

The four kinds of brackets of annotations, their balance, and the partner of an opening bracket.

## Main definitions

* `Bracket.partnerAfter` — splits a text at the bracket that closes one opened before it, counting
  brackets of every kind alike.
* `Bracket.check` — whether every bracket is closed by one of its own kind.

## Main results

* `Bracket.length_partnerAfter` — the two sides of the closing bracket make up the text.
-/

namespace TypedSheets.Bracket

/-- The opening brackets. -/
def isOpening (c : Char) : Bool :=
  c == '(' || c == '[' || c == '{' || c == '<'

/-- The closing brackets. -/
def isClosing (c : Char) : Bool :=
  c == ')' || c == ']' || c == '}' || c == '>'

/-- The opening bracket of the kind of a closing one. -/
def opener (c : Char) : Char :=
  if c = ')' then '(' else if c = ']' then '[' else if c = '}' then '{' else '<'

/-- The parts of a text before and after the bracket that closes the outermost of `pending + 1` open
brackets, where brackets of every kind count alike. -/
def partnerAfter (pending : Nat) : List Char → Option (List Char × List Char)
  | [] => none
  | c :: rest =>
    if isOpening c then
      (partnerAfter (pending + 1) rest).map fun (inside, after) => (c :: inside, after)
    else if isClosing c then
      match pending with
      | 0 => some ([], rest)
      | pending + 1 =>
        (partnerAfter pending rest).map fun (inside, after) => (c :: inside, after)
    else (partnerAfter pending rest).map fun (inside, after) => (c :: inside, after)

/-- The closing bracket and its two sides make up the text. -/
theorem length_partnerAfter {pending : Nat} {text inside after : List Char}
    (h : partnerAfter pending text = some (inside, after)) :
    inside.length + after.length + 1 = text.length := by
  induction text generalizing pending inside after with
  | nil => simp [partnerAfter] at h
  | cons c rest ih =>
    have step {p : Nat} (h : (partnerAfter p rest).map
        (fun (x : List Char × List Char) => (c :: x.1, x.2)) = some (inside, after)) :
        inside.length + after.length + 1 = (c :: rest).length := by
      obtain ⟨⟨i, a⟩, hp, he⟩ := Option.map_eq_some_iff.1 h
      cases he
      have := ih hp
      simp only [List.length_cons]; omega
    unfold partnerAfter at h
    split at h
    · exact step h
    · split at h
      · split at h
        · cases h; simp
        · exact step h
      · exact step h

/-- What can be wrong with the brackets of a text. -/
inductive Fault where
  /-- A closing bracket without an opening one of its kind. -/
  | unbalanced (bracket : Char)
  /-- An opening bracket that is never closed. -/
  | unclosed (bracket : Char)
deriving DecidableEq

/-- Reads a text with the given brackets open, the innermost first. -/
def checkFrom : (pending : List Char) → List Char → Except Fault Unit
  | [], [] => .ok ()
  | bracket :: _, [] => .error (.unclosed bracket)
  | pending, c :: rest =>
    if isOpening c then checkFrom (c :: pending) rest
    else if isClosing c then
      match pending with
      | [] => .error (.unbalanced c)
      | bracket :: pending =>
        if bracket = opener c then checkFrom pending rest else .error (.unbalanced c)
    else checkFrom pending rest

/-- Whether every bracket is closed by one of its own kind, and every closing one closes one. -/
def check (text : List Char) : Except Fault Unit :=
  checkFrom [] text

end TypedSheets.Bracket
