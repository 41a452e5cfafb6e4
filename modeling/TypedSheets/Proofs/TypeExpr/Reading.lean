import TypedSheets.Proofs.Collections
import TypedSheets.Proofs.TypeExpr.Kinds

/-!
# Reading annotations from their texts

What a text is read as, one layer of it: the kind of the text with its marks peeled off, and the
parts, which are read from shorter texts inside it.

## Main definitions

* `TypeExpr.ReadAs` — what a text of a kind is read as.
* `TypeExpr.ReadFrom` — what an annotation that is read from a text is made of.

## Main results

* `TypeExpr.parseBalanced_ok_iff` — a text whose marks are peeled off is read by its kind.
* `TypeExpr.flags_of_parseBalanced` — the marks are the flags of what is read.
* `TypeExpr.readFrom_of_parseBalanced` — the parts of what is read are read from texts inside.
-/

namespace TypedSheets

namespace TypeExpr

/-- Reading a text whose marks are peeled off. -/
theorem parseBalanced_eq {whole : String} {text rest : List Char} {flags : Flags}
    (hp : peel whole text = .ok (flags, rest)) :
    parseBalanced whole text =
      match Form.ofText rest with
      | .missing => .error (.missingBase whole)
      | .relation target =>
        match Target.ofChars? (Text.trim target) with
        | some t => .ok (relation flags t)
        | none => .error (.badTarget (String.ofList target) whole)
      | .primitive p => .ok (primitive flags p)
      | .array inside => (parseBalanced whole inside).map (array flags)
      | .map inside =>
        match splitMapEntry 0 inside with
        | none => .error (.badMap whole)
        | some (key, value) =>
          match parseBalanced whole key with
          | .error fault => .error fault
          | .ok k => (parseBalanced whole value).map (map flags k)
      | .geometry shape element =>
        if element.isEmpty then .ok (geometry flags shape defaultElement)
        else (parseBalanced whole element).map (geometry flags shape)
      | .enum name => .ok (enum flags (String.ofList name))
      | .unknown => .error (.unrecognized (String.ofList rest) whole) := by
  rw [parseBalanced]
  split
  · rename_i heq
    rw [hp] at heq
    cases heq
  · rename_i heq
    rw [hp] at heq
    cases heq
    dsimp only
    split
    case h_2 target hf =>
      rewrite [hf]
      rfl
    case h_5 inside hf =>
      simp only [hf]
      split
      · rename_i he
        simp only [he]
      · rename_i he
        rewrite [he]
        rfl
    all_goals
      rename_i hf
      simp only [hf]

/-- What a text of a kind is read as, with the marks in front of it: one case for each kind of text
that can be read. -/
inductive ReadAs (whole : String) (flags : Flags) : Form → TypeExpr → Prop
  | relation {target : List Char} {t : Target} (ht : Target.ofChars? (Text.trim target) = some t) :
    ReadAs whole flags (.relation target) (relation flags t)
  | primitive (p : Primitive) : ReadAs whole flags (.primitive p) (primitive flags p)
  | array {inside : List Char} {e : TypeExpr} (he : parseBalanced whole inside = .ok e) :
    ReadAs whole flags (.array inside) (array flags e)
  | map {inside key value : List Char} {k v : TypeExpr}
    (hsplit : splitMapEntry 0 inside = some (key, value)) (hk : parseBalanced whole key = .ok k)
    (hv : parseBalanced whole value = .ok v) : ReadAs whole flags (.map inside) (map flags k v)
  /-- A geometry without the text of an element has the default one. -/
  | bareGeometry {shape : Geometry} {element : List Char} (hempty : element.isEmpty = true) :
    ReadAs whole flags (.geometry shape element) (geometry flags shape defaultElement)
  | geometry {shape : Geometry} {element : List Char} {e : TypeExpr}
    (hempty : element.isEmpty = false) (he : parseBalanced whole element = .ok e) :
    ReadAs whole flags (.geometry shape element) (geometry flags shape e)
  | enum (name : List Char) : ReadAs whole flags (.enum name) (enum flags (String.ofList name))

section Kind

variable {whole : String} {text rest : List Char} {flags : Flags} {e : TypeExpr}
  (hp : peel whole text = .ok (flags, rest))

include hp

theorem readAs_of_parseBalanced (h : parseBalanced whole text = .ok e) :
    ReadAs whole flags (Form.ofText rest) e := by
  rw [parseBalanced_eq hp] at h
  generalize Form.ofText rest = form at h ⊢
  cases form with
  | missing => cases h
  | relation target =>
    dsimp only at h
    split at h
    · rename_i t ht
      cases h
      exact .relation ht
    · cases h
  | primitive p =>
    cases h
    exact .primitive p
  | array inside =>
    obtain ⟨a, ha, rfl⟩ := Except.exists_of_map_ok h
    exact .array ha
  | map inside =>
    dsimp only at h
    split at h
    · cases h
    · rename_i key value hsplit
      split at h
      · cases h
      · rename_i k hk
        obtain ⟨v, hv, rfl⟩ := Except.exists_of_map_ok h
        exact .map hsplit hk hv
  | geometry shape element =>
    dsimp only at h
    split at h
    · rename_i hempty
      cases h
      exact .bareGeometry hempty
    · rename_i hempty
      obtain ⟨a, ha, rfl⟩ := Except.exists_of_map_ok h
      exact .geometry (Bool.eq_false_iff.2 hempty) ha
  | enum name =>
    cases h
    exact .enum name
  | unknown => cases h

theorem parseBalanced_of_readAs (h : ReadAs whole flags (Form.ofText rest) e) :
    parseBalanced whole text = .ok e := by
  rw [parseBalanced_eq hp]
  generalize Form.ofText rest = form at h ⊢
  cases h with
  | relation ht => simp only [ht]
  | primitive p => rfl
  | array he =>
    dsimp only
    rw [he]
    rfl
  | map hsplit hk hv =>
    simp only [hsplit, hk, hv]
    rfl
  | bareGeometry hempty => exact if_pos hempty
  | geometry hempty he =>
    dsimp only
    rw [hempty, he]
    rfl
  | enum name => rfl

/-- **A text whose marks are peeled off is read by its kind.** -/
theorem parseBalanced_ok_iff :
    parseBalanced whole text = .ok e ↔ ReadAs whole flags (Form.ofText rest) e :=
  ⟨readAs_of_parseBalanced hp, parseBalanced_of_readAs hp⟩

/-- The marks that are peeled off are the flags of what is read. -/
theorem flags_of_parseBalanced (h : parseBalanced whole text = .ok e) : e.flags = flags := by
  have hread := readAs_of_parseBalanced hp h
  generalize Form.ofText rest = form at hread
  cases hread <;> rfl

end Kind

/-- A text is taken for the name of an enum only if it can be one. -/
theorem isEnumName_of_ofText {text name : List Char} (h : Form.ofText text = .enum name) :
    isEnumName (String.ofList name) = true := by
  unfold Form.ofText at h
  split at h
  · cases h
  · cases h
  · split at h
    · cases h
    · rename_i hprimitive
      split at h
      · cases h
      · split at h
        · cases h
        · split at h
          · cases h
          · rename_i hgeometry
            split at h
            · rename_i hident
              cases h
              simp only [isEnumName, String.toList_ofList, hident, hprimitive, Bool.true_and,
                Option.isNone_none, List.all_eq_true, bne_iff_ne]
              rintro shape - hshape
              have hname : shape.name.toList = text := by rw [hshape, String.toList_ofList]
              rw [← hname] at hgeometry
              cases shape <;> cases hgeometry
            · cases h

/-- What an annotation that is read from a text is made of: names that can be read, and parts that
are read from texts inside, which are shorter by the brackets and separators around them. -/
def ReadFrom (whole : String) (text : List Char) : TypeExpr → Prop
  | primitive _ _ => True
  | enum _ name => isEnumName name = true
  | relation _ t => t.isWellFormed = true
  | array _ e => ∃ inside, inside.length + 2 ≤ text.length ∧ parseBalanced whole inside = .ok e
  | map _ k v => ∃ key value, key.length + value.length + 3 ≤ text.length ∧
      parseBalanced whole key = .ok k ∧ parseBalanced whole value = .ok v
  | geometry _ _ e => e = defaultElement ∧ 4 ≤ text.length ∨
      ∃ element, element.length + 4 ≤ text.length ∧ parseBalanced whole element = .ok e

/-- From a text that is read as an annotation its marks can be peeled off. -/
theorem exists_peel_of_parseBalanced {whole : String} {text : List Char} {e : TypeExpr}
    (h : parseBalanced whole text = .ok e) : ∃ flags rest, peel whole text = .ok (flags, rest) := by
  cases hp : peel whole text with
  | ok peeled => exact ⟨peeled.1, peeled.2, rfl⟩
  | error fault =>
    rw [parseBalanced] at h
    split at h
    · cases h
    · rename_i heq
      rw [hp] at heq
      cases heq

/-- An annotation is read from a text that is not empty, and its parts from texts inside it. -/
theorem readFrom_of_parseBalanced {whole : String} {text : List Char} {e : TypeExpr}
    (h : parseBalanced whole text = .ok e) : text ≠ [] ∧ ReadFrom whole text e := by
  obtain ⟨flags, rest, hp⟩ := exists_peel_of_parseBalanced h
  have hle := length_peel_le hp
  have hread := readAs_of_parseBalanced hp h
  have hfound := Form.found_ofText rest
  refine ⟨?_, ?_⟩
  · rintro rfl
    cases List.eq_nil_of_length_eq_zero (Nat.le_zero.1 hle)
    cases hread
  generalize hform : Form.ofText rest = form at hread hfound
  cases hread with
  | relation ht => exact Target.isWellFormed_of_ofChars? ht
  | primitive p => trivial
  | array he => exact ⟨_, (Form.length_enclosed hfound).trans_le hle, he⟩
  | map hsplit hk hv =>
    have hinside := Form.length_enclosed hfound
    have hparts := length_splitMapEntry hsplit
    exact ⟨_, _, by omega, hk, hv⟩
  | bareGeometry hempty =>
    have helement := Form.length_geometry? hfound
    exact .inl ⟨rfl, by omega⟩
  | geometry hempty he =>
    have helement := Form.length_geometry? hfound
    exact .inr ⟨_, by omega, he⟩
  | enum name => exact isEnumName_of_ofText hform

end TypeExpr

end TypedSheets
