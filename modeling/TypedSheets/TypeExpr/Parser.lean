import TypedSheets.TypeExpr.Basic
import TypedSheets.TypeExpr.Naking
import TypedSheets.Text.Word

/-!
# Reading annotations

The annotation that a text denotes. A text is peeled from the outside: the nullable mark, the key
mark with another nullable mark inside it, then strong and sequence marks. What is left is a
relation, a primitive type, a container, a pair of numbers or the name of an enum.

## Main definitions

* `TypeFault` — what can be wrong with a text, with its message.
* `Form` — the kind of a peeled text, with the texts of its parts.
* `TypeExpr.parse` — the annotation of a text.

## Design

Peeling and finding the kind are not recursive; the texts of the parts are shorter than the text
they are found in (`length_peel_le`, `Form.ofText_parts`), which is what the recursion rests on.
-/

namespace TypedSheets

/-- What can be wrong with the text of an annotation. `whole` is the text as it was given. -/
inductive TypeFault where
  /-- Nothing is there. -/
  | empty
  /-- A bracket does not match; the text is trimmed. -/
  | brackets (fault : Bracket.Fault) (text : String)
  /-- The marks of both kinds of keys are there. -/
  | twoKeys (whole : String)
  /-- What follows `$` is no table and column. -/
  | badTarget (target whole : String)
  /-- There are marks but no type. -/
  | missingBase (whole : String)
  /-- A map without a colon. -/
  | badMap (whole : String)
  /-- A text of no known form. -/
  | unrecognized (text whole : String)
deriving DecidableEq

/-- The text of a fault. -/
def TypeFault.message : TypeFault → String
  | empty => "empty type annotation"
  | brackets (.unbalanced c) text =>
    "unbalanced '" ++ String.singleton c ++ "' in type '" ++ text ++ "'"
  | brackets (.unclosed c) text =>
    "unclosed '" ++ String.singleton c ++ "' in type '" ++ text ++ "'"
  | twoKeys whole => s!"'{whole}' is both a primary and a group key"
  | badTarget target whole => s!"'{target}' is not a valid relation target in '{whole}'"
  | missingBase whole => s!"missing base type in '{whole}'"
  | badMap whole => s!"map type '{whole}' needs 'key:value'"
  | unrecognized text whole => s!"unrecognized type '{text}' in '{whole}'"

/-- The failure a fault is reported as. -/
def TypeFault.toFailure (f : TypeFault) : Failure :=
  .parse f.message

namespace TypeExpr

/-! ### Peeling marks -/

/-- A text without a final `?` and the blanks before it, and whether there was one. -/
def peelNullable (text : List Char) : Bool × List Char :=
  match Text.stripSuffix '?' text with
  | some rest => (true, Text.trimEnd rest)
  | none => (false, text)

/-- Peeling a nullable mark never makes a text longer. -/
theorem length_peelNullable_le (text : List Char) :
    (peelNullable text).2.length ≤ text.length := by
  unfold peelNullable
  split
  · rename_i rest h
    have h1 := Text.length_stripSuffix h
    have h2 := Text.length_trimEnd_le rest
    simp only; omega
  · exact Nat.le_refl _

/-- A text without the strong and sequence marks it starts with, in any order and number, and
whether there were any. -/
def peelStrength (strong sequence : Bool) (text : List Char) : Bool × Bool × List Char :=
  match text with
  | '!' :: rest =>
    have := Text.length_trimStart_le rest
    peelStrength true sequence (Text.trimStart rest)
  | '~' :: rest =>
    have := Text.length_trimStart_le rest
    peelStrength strong true (Text.trimStart rest)
  | _ => (strong, sequence, text)
termination_by text.length

/-- Peeling strong and sequence marks never makes a text longer. -/
theorem length_peelStrength_le (strong sequence : Bool) (text : List Char) :
    (peelStrength strong sequence text).2.2.length ≤ text.length := by
  fun_induction peelStrength strong sequence text with
  | case1 _ _ rest this ih => simp only [List.length_cons]; omega
  | case2 _ _ rest this ih => simp only [List.length_cons]; omega
  | case3 => exact Nat.le_refl _

/-- The marks of a text as flags, and the text without them; the nullable mark and the key mark are
peeled already. -/
def peelRest (nullable : Bool) (key : KeyRole) (text : List Char) : Flags × List Char :=
  let (strong, sequence, rest) := peelStrength false false text
  ({ nullable, key, strong, sequence }, rest)

/-- A text without the mark of a primary key, and whether there was one. -/
def peelPrimary (text : List Char) : Bool × List Char :=
  match Text.stripPrefix ['*'] text with
  | some rest => (true, Text.trimStart rest)
  | none => (false, text)

/-- The marks of a text as flags, and the text without them; a nullable mark behind the whole and
the mark of a primary key are peeled already. -/
def peelKey (whole : String) (outer primary : Bool) (text : List Char) :
    Except TypeFault (Flags × List Char) :=
  match splitGroupKey text with
  | some (inside, middle) =>
    if primary then .error (.twoKeys whole)
    else
      let (inner, rest) := peelNullable (Text.trim inside)
      .ok (peelRest (outer || middle || inner) .group rest)
  | none =>
    if primary then
      let (inner, rest) := peelNullable text
      .ok (peelRest (outer || inner) .primary rest)
    else .ok (peelRest outer .none text)

/-- The marks of a text as flags, and the text without them. A nullable mark may stand behind the
whole, behind the parentheses of a group key, or inside a key mark. -/
def peel (whole : String) (text : List Char) : Except TypeFault (Flags × List Char) :=
  let (outer, rest) := peelNullable (Text.trim text)
  let (primary, rest) := peelPrimary rest
  peelKey whole outer primary rest

/-- Peeling the remaining marks never makes a text longer. -/
theorem length_peelRest_le (nullable : Bool) (key : KeyRole) (text : List Char) :
    (peelRest nullable key text).2.length ≤ text.length :=
  length_peelStrength_le false false text

/-- Peeling the mark of a primary key never makes a text longer. -/
theorem length_peelPrimary_le (text : List Char) : (peelPrimary text).2.length ≤ text.length := by
  unfold peelPrimary
  split
  · rename_i rest h
    have h1 := Text.length_stripPrefix h
    have h2 := Text.length_trimStart_le rest
    simp only; omega
  · exact Nat.le_refl _

/-- Peeling key marks never makes a text longer. -/
theorem length_peelKey_le {whole : String} {outer primary : Bool} {text rest : List Char}
    {flags : Flags} (h : peelKey whole outer primary text = .ok (flags, rest)) :
    rest.length ≤ text.length := by
  have of_rest {n : Bool} {k : KeyRole} {t : List Char}
      (h : (Except.ok (peelRest n k t) : Except TypeFault _) = .ok (flags, rest)) :
      rest.length ≤ t.length := by
    have hle := length_peelRest_le n k t
    rw [Except.ok.inj h] at hle
    exact hle
  unfold peelKey at h
  split at h
  · rename_i inside middle hg
    split at h
    · simp at h
    · have h1 := length_splitGroupKey hg
      have h2 := length_peelNullable_le (Text.trim inside)
      have h3 := Text.length_trim_le inside
      have h4 : rest.length ≤ (peelNullable (Text.trim inside)).2.length := of_rest h
      omega
  · split at h
    · have h1 : rest.length ≤ (peelNullable text).2.length := of_rest h
      exact Nat.le_trans h1 (length_peelNullable_le text)
    · exact of_rest h

/-- Peeling never makes a text longer. -/
theorem length_peel_le {whole : String} {text rest : List Char} {flags : Flags}
    (h : peel whole text = .ok (flags, rest)) : rest.length ≤ text.length := by
  have h1 : rest.length ≤ (peelPrimary (peelNullable (Text.trim text)).2).2.length :=
    length_peelKey_le h
  exact Nat.le_trans h1 <| Nat.le_trans (length_peelPrimary_le _) <|
    Nat.le_trans (length_peelNullable_le _) (Text.length_trim_le _)

end TypeExpr

/-! ### Finding the kind -/

/-- The kind of a peeled text, with the texts of its parts. -/
inductive Form where
  | missing
  | relation (target : List Char)
  | primitive (type : Primitive)
  | array (inside : List Char)
  | map (inside : List Char)
  | geometry (shape : Geometry) (element : List Char)
  | enum (name : List Char)
  | unknown
deriving DecidableEq

namespace Form

/-- The text inside a pair of brackets that encloses the whole text. -/
def enclosed (opening : Char) : List Char → Option (List Char)
  | [] => none
  | c :: rest =>
    if c = opening then
      match Bracket.partnerAfter 0 rest with
      | some (inside, []) => some inside
      | _ => none
    else none

/-- Enclosing brackets are two characters. -/
theorem length_enclosed {opening : Char} {text inside : List Char}
    (h : enclosed opening text = some inside) : inside.length + 2 = text.length := by
  unfold enclosed at h
  split at h
  · cases h
  · split at h
    · split at h
      · rename_i heq
        cases h
        have := Bracket.length_partnerAfter heq
        simp only [List.length_nil, List.length_cons] at this ⊢
        omega
      · cases h
    · cases h

/-- The trimmed text between `<` and `>`, all on one line; empty if the text is empty. -/
def angled : List Char → Option (List Char)
  | [] => some []
  | '<' :: rest =>
    (Text.stripSuffix '>' rest).bind fun inside =>
      if inside.contains '\n' then none else some (Text.trim inside)
  | _ => none

/-- The text between angle brackets is no longer than the whole. -/
theorem length_angled_le {text inside : List Char} (h : angled text = some inside) :
    inside.length ≤ text.length := by
  unfold angled at h
  split at h
  · cases h; simp
  · rename_i rest
    obtain ⟨body, hb, hi⟩ := Option.bind_eq_some_iff.1 h
    have h1 := Text.length_stripSuffix hb
    have h2 := Text.length_trim_le body
    split at hi
    · simp at hi
    · simp only [Option.some.injEq] at hi
      subst hi
      simp only [List.length_cons]; omega
  · simp at h

/-- A kind of pairs of numbers with the text of its element type. -/
def geometry? (text : List Char) : Option (Geometry × List Char) :=
  [Geometry.point, .size, .range].findSome? fun shape =>
    ((Text.stripPrefix shape.name.toList text).bind angled).map fun element => (shape, element)

/-- A pair of numbers starts with a name. -/
theorem length_geometry? {text element : List Char} {shape : Geometry}
    (h : geometry? text = some (shape, element)) : element.length + 4 ≤ text.length := by
  obtain ⟨s, -, hs⟩ := List.exists_of_findSome?_eq_some h
  obtain ⟨e, he, heq⟩ := Option.map_eq_some_iff.1 hs
  obtain ⟨rest, hr, ha⟩ := Option.bind_eq_some_iff.1 he
  cases heq
  have hrest := Text.length_stripPrefix hr
  have helement := length_angled_le ha
  have hname : 4 ≤ shape.name.toList.length := by cases shape <;> decide
  omega

/-- The kind of a peeled text: the first that fits of a relation, a primitive type, an array, a
map, a pair of numbers and an enum. -/
def ofText (text : List Char) : Form :=
  match text with
  | [] => missing
  | '$' :: target => relation target
  | text =>
    match Primitive.ofName? (String.ofList text) with
    | some p => primitive p
    | none =>
      match enclosed '[' text with
      | some inside => array inside
      | none =>
        match enclosed '{' text with
        | some inside => map inside
        | none =>
          match geometry? text with
          | some (shape, element) => geometry shape element
          | none => if Text.isIdentifier text then enum text else unknown

/-- Where the parts of a kind stand in a text. -/
def Found (text : List Char) : Form → Prop
  | array inside => enclosed '[' text = some inside
  | map inside => enclosed '{' text = some inside
  | geometry shape element => geometry? text = some (shape, element)
  | _ => True

theorem found_ofText (text : List Char) : Found text (ofText text) := by
  unfold ofText
  split
  · trivial
  · trivial
  · split
    · trivial
    · split
      · assumption
      · split
        · assumption
        · split
          · assumption
          · split <;> trivial

/-- The texts of the parts of a kind. -/
def parts : Form → List (List Char)
  | array inside | map inside => [inside]
  | geometry _ element => [element]
  | _ => []

/-- The texts of the parts are shorter than the text they are found in. -/
theorem ofText_parts {text part : List Char} (h : part ∈ (ofText text).parts) :
    part.length < text.length := by
  have hfound := found_ofText text
  generalize ofText text = form at h hfound
  cases form with
  | array inside | map inside =>
    cases List.mem_singleton.1 h
    have := length_enclosed hfound
    omega
  | geometry shape element =>
    cases List.mem_singleton.1 h
    have := length_geometry? hfound
    omega
  | _ => cases h

end Form

/-- The parts of a map type around its first colon outside of brackets. -/
def splitMapEntry (depth : Int) : List Char → Option (List Char × List Char)
  | [] => none
  | c :: rest =>
    if c = ':' && depth = 0 then some ([], rest)
    else
      let depth := if Bracket.isOpening c then depth + 1
        else if Bracket.isClosing c then depth - 1 else depth
      (splitMapEntry depth rest).map fun (key, value) => (c :: key, value)

/-- The two parts and the colon make up the text. -/
theorem length_splitMapEntry {depth : Int} {text key value : List Char}
    (h : splitMapEntry depth text = some (key, value)) :
    key.length + value.length + 1 = text.length := by
  induction text generalizing depth key value with
  | nil => simp [splitMapEntry] at h
  | cons c rest ih =>
    unfold splitMapEntry at h
    split at h
    · cases h; simp
    · obtain ⟨⟨k, v⟩, hk, he⟩ := Option.map_eq_some_iff.1 h
      cases he
      have := ih hk
      simp only [List.length_cons]; omega

/-- The target of a relation: an identifier, or two with a point between them. -/
def Target.ofChars? (text : List Char) : Option Target :=
  match Text.cutAt '.' text with
  | none =>
    if Text.isIdentifier text then some ⟨String.ofList text, none⟩ else none
  | some (table, column) =>
    if Text.isIdentifier table && Text.isIdentifier column then
      some ⟨String.ofList table, some (String.ofList column)⟩
    else none

namespace TypeExpr

/-- The element type of a pair that names none. -/
def defaultElement : TypeExpr := primitive {} .uint32

/-- The annotation of a text whose brackets match. -/
def parseBalanced (whole : String) (text : List Char) : Except TypeFault TypeExpr :=
  match hp : peel whole text with
  | .error fault => .error fault
  | .ok (flags, rest) =>
    have hrest := length_peel_le hp
    match hf : Form.ofText rest with
    | .missing => .error (.missingBase whole)
    | .relation target =>
      match Target.ofChars? (Text.trim target) with
      | some t => .ok (relation flags t)
      | none => .error (.badTarget (String.ofList target) whole)
    | .primitive p => .ok (primitive flags p)
    | .array inside =>
      have : inside.length < rest.length := Form.ofText_parts (by simp [hf, Form.parts])
      (parseBalanced whole inside).map (array flags)
    | .map inside =>
      have : inside.length < rest.length := Form.ofText_parts (by simp [hf, Form.parts])
      match he : splitMapEntry 0 inside with
      | none => .error (.badMap whole)
      | some (key, value) =>
        have := length_splitMapEntry he
        match parseBalanced whole key with
        | .error fault => .error fault
        | .ok k => (parseBalanced whole value).map (map flags k)
    | .geometry shape element =>
      have : element.length < rest.length := Form.ofText_parts (by simp [hf, Form.parts])
      if element.isEmpty then .ok (geometry flags shape defaultElement)
      else (parseBalanced whole element).map (geometry flags shape)
    | .enum name => .ok (enum flags (String.ofList name))
    | .unknown => .error (.unrecognized (String.ofList rest) whole)
termination_by text.length

/-- The annotation of a text, or what is wrong with it. -/
def parse? (text : String) : Except TypeFault TypeExpr :=
  let trimmed := Text.trim text.toList
  if trimmed.isEmpty then .error .empty
  else match Bracket.check trimmed with
    | .error fault => .error (.brackets fault (String.ofList trimmed))
    | .ok () => parseBalanced text trimmed

/-- The annotation of a text, or the failure to report. -/
def parse (text : String) : Except Failure TypeExpr :=
  (parse? text).mapError TypeFault.toFailure

end TypeExpr

end TypedSheets
