import TypedSheets.TypeExpr.Bracket
import TypedSheets.Text.Blank

/-!
# Stripping modifiers

The modifiers of an annotation can be stripped from its text without reading it as a type. A set of
modifiers says which ones; they are stripped from the outside until none of them applies.

## Main definitions

* `Modifiers` — a set of modifiers.
* `nakeOnce` — one stripping step.
* `nake` — stripping to the end.
* `isNullable`, `makeNullable` — the `?` at the end of a text.

## Main results

* `length_nakeOnce_lt` — a step makes the text shorter, so that stripping ends.
-/

namespace TypedSheets

/-- A set of modifiers. -/
structure Modifiers where
  /-- `*T`, a primary key. -/
  primary : Bool := false
  /-- `(T)`, a group key. -/
  group : Bool := false
  /-- `$T`, a relation. -/
  relation : Bool := false
  /-- `T?`, nullable. -/
  nullable : Bool := false
  /-- `!T`, a strong reference. -/
  strong : Bool := false
  /-- `~T`, a sequence. -/
  sequence : Bool := false
deriving DecidableEq, Inhabited

namespace Modifiers

/-- No modifier. -/
def none : Modifiers := {}

/-- Both kinds of keys. -/
def key : Modifiers := { primary := true, group := true }

/-- Every modifier. -/
def all : Modifiers :=
  { primary := true, group := true, relation := true, nullable := true, strong := true,
    sequence := true }

/-- The set of a given test on each modifier of two sets. -/
def combine (f : Bool → Bool → Bool) (a b : Modifiers) : Modifiers :=
  { primary := f a.primary b.primary, group := f a.group b.group,
    relation := f a.relation b.relation, nullable := f a.nullable b.nullable,
    strong := f a.strong b.strong, sequence := f a.sequence b.sequence }

/-- The modifiers in either set. -/
def union : Modifiers → Modifiers → Modifiers := combine or

/-- The modifiers in both sets. -/
def inter : Modifiers → Modifiers → Modifiers := combine and

/-- The modifiers that are not in a set. -/
def complement (a : Modifiers) : Modifiers := combine (fun x y => x && !y) all a

/-- Whether every modifier of `b` is in `a`. -/
def contains (a b : Modifiers) : Bool :=
  a.inter b == b

end Modifiers

/-- The text inside the parentheses of `(T)` or `(T)?`, and whether `?` follows them. -/
def splitGroupKey : List Char → Option (List Char × Bool)
  | '(' :: rest =>
    match Bracket.partnerAfter 0 rest with
    | some (inside, []) => some (inside, false)
    | some (inside, ['?']) => some (inside, true)
    | _ => none
  | _ => none

/-- The text inside the parentheses is shorter than the whole, also with the `?` kept. -/
theorem length_splitGroupKey {text inside : List Char} {nullable : Bool}
    (h : splitGroupKey text = some (inside, nullable)) :
    inside.length + 2 + nullable.toNat = text.length := by
  unfold splitGroupKey at h
  split at h
  · rename_i rest
    split at h
    · rename_i heq
      cases h
      have := Bracket.length_partnerAfter heq
      simp at this ⊢; omega
    · rename_i heq
      cases h
      have := Bracket.length_partnerAfter heq
      simp at this ⊢; omega
    · simp at h
  · simp at h

/-- The text inside a group key, with the `?` behind the parentheses moved to its end. -/
def nakeGroup (text : List Char) : Option (List Char) :=
  (splitGroupKey text).map fun (inside, nullable) =>
    if nullable then Text.trim inside ++ ['?'] else Text.trim inside

/-- The trimmed rest of a text behind its first character, if that is `mark`. -/
def nakeMark (mark : Char) (text : List Char) : Option (List Char) :=
  (Text.stripPrefix [mark] text).map Text.trim

/-- The trimmed text before a final `?`. -/
def nakeNullable (text : List Char) : Option (List Char) :=
  (Text.stripSuffix '?' text).map Text.trim

/-- The stripping steps in the order in which they are tried, and whether a set asks for them. -/
def nakeSteps (mask : Modifiers) : List (Bool × (List Char → Option (List Char))) :=
  [(mask.primary, nakeMark '*'), (mask.group, nakeGroup), (mask.strong, nakeMark '!'),
    (mask.sequence, nakeMark '~'), (mask.relation, nakeMark '$'), (mask.nullable, nakeNullable)]

/-- One stripping step: the first that the set asks for and that applies. -/
def nakeOnce (mask : Modifiers) (text : List Char) : Option (List Char) :=
  (nakeSteps mask).findSome? fun step => if step.1 then step.2 text else none

theorem length_nakeMark_lt {mark : Char} {text next : List Char}
    (h : nakeMark mark text = some next) : next.length < text.length := by
  obtain ⟨rest, hr, rfl⟩ := Option.map_eq_some_iff.1 h
  have h1 := Text.length_stripPrefix hr
  have h2 := Text.length_trim_le rest
  simp at h1; omega

theorem length_nakeNullable_lt {text next : List Char} (h : nakeNullable text = some next) :
    next.length < text.length := by
  obtain ⟨rest, hr, rfl⟩ := Option.map_eq_some_iff.1 h
  have h1 := Text.length_stripSuffix hr
  have h2 := Text.length_trim_le rest
  omega

theorem length_nakeGroup_lt {text next : List Char} (h : nakeGroup text = some next) :
    next.length < text.length := by
  obtain ⟨⟨inside, nullable⟩, hr, he⟩ := Option.map_eq_some_iff.1 h
  have h1 := length_splitGroupKey hr
  have h2 := Text.length_trim_le inside
  cases nullable <;> simp at he h1 <;> subst he <;> simp <;> omega

/-- A stripping step makes the text shorter. -/
theorem length_nakeOnce_lt {mask : Modifiers} {text next : List Char}
    (h : nakeOnce mask text = some next) : next.length < text.length := by
  obtain ⟨⟨wanted, step⟩, hmem, hstep⟩ := List.exists_of_findSome?_eq_some h
  simp only [Option.ite_none_right_eq_some] at hstep
  replace hstep := hstep.2
  simp only [nakeSteps, List.mem_cons, Prod.mk.injEq, List.not_mem_nil, or_false] at hmem
  rcases hmem with ⟨-, rfl⟩ | ⟨-, rfl⟩ | ⟨-, rfl⟩ | ⟨-, rfl⟩ | ⟨-, rfl⟩ | ⟨-, rfl⟩
  · exact length_nakeMark_lt hstep
  · exact length_nakeGroup_lt hstep
  · exact length_nakeMark_lt hstep
  · exact length_nakeMark_lt hstep
  · exact length_nakeMark_lt hstep
  · exact length_nakeNullable_lt hstep

/-- Strips the modifiers of a set from a trimmed text until none applies or the next step would
leave nothing. -/
def nakeFrom (mask : Modifiers) (text : List Char) : List Char :=
  match h : nakeOnce mask text with
  | some next =>
    have : next.length < text.length := length_nakeOnce_lt h
    if next.isEmpty then text else nakeFrom mask next
  | none => text
termination_by text.length

/-- Strips the modifiers of a set from the outside of an annotation text. -/
def nake (mask : Modifiers) (text : String) : String :=
  String.ofList (nakeFrom mask (Text.trim text.toList))

/-- Whether an annotation text ends with `?`. -/
def isNullable (text : String) : Bool :=
  (Text.trim text.toList).getLast? == some '?'

/-- An annotation text with a `?` at its end; a text that has one is left as it is. -/
def makeNullable (text : String) : String :=
  if isNullable text then text else Text.trimmed text ++ "?"

end TypedSheets
