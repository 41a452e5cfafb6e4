import TypedSheets.Proofs.Collections
import TypedSheets.Proofs.Text.Words
import TypedSheets.Proofs.TypeExpr.Matched

/-!
# Peeling marks off annotations

The marks that flags write around a text are peeled off again, provided that the text itself has
nothing to peel off.

## Main definitions

* `TypeExpr.Bare` — a text with nothing to peel off.

## Main results

* `TypeExpr.matched_mark` — the marks of flags keep the brackets of a text matched.
* `TypeExpr.peel_mark` — the marks of flags are peeled off again.
-/

namespace TypedSheets

namespace TypeExpr

open Bracket

/-- A text with no blanks at its ends and no marks to peel off. -/
structure Bare (body : List Char) : Prop where
  /-- It starts with no mark. -/
  starts : ∃ c rest, body = c :: rest ∧ Text.isBlank c = false ∧ c ∉ ['!', '~', '*', '(']
  /-- It ends with no mark. -/
  ends : ∃ before c, body = before ++ [c] ∧ Text.isBlank c = false ∧ c ≠ '?'

/-- The strong and sequence marks of flags. -/
def strengthMarks (flags : Flags) : List Char :=
  (if flags.strong then ['!'] else []) ++ (if flags.sequence then ['~'] else [])

section Peeling

variable {body : List Char}

theorem Bare.strength_starts (h : Bare body) (flags : Flags) :
    ∃ c rest, strengthMarks flags ++ body = c :: rest ∧ Text.isBlank c = false ∧ c ≠ '*' ∧
      c ≠ '(' := by
  obtain ⟨c, rest, rfl, hblank, hmark⟩ := h.starts
  simp only [List.mem_cons, List.not_mem_nil, or_false, not_or] at hmark
  unfold strengthMarks
  cases flags.strong with
  | true => exact ⟨'!', _, rfl, by decide, by decide, by decide⟩
  | false =>
    cases flags.sequence with
    | true => exact ⟨'~', _, rfl, by decide, by decide, by decide⟩
    | false => exact ⟨c, rest, rfl, hblank, hmark.2.2.1, hmark.2.2.2⟩

theorem Bare.strength_ends (h : Bare body) (flags : Flags) :
    ∃ before c, strengthMarks flags ++ body = before ++ [c] ∧ Text.isBlank c = false ∧ c ≠ '?' := by
  obtain ⟨before, c, rfl, hblank, hmark⟩ := h.ends
  exact ⟨strengthMarks flags ++ before, c, (List.append_assoc ..).symm, hblank, hmark⟩

/-- Strong and sequence marks are peeled off a bare text. -/
theorem peelStrength_marks (h : Bare body) (flags : Flags) :
    peelStrength false false (strengthMarks flags ++ body) =
      (flags.strong, flags.sequence, body) := by
  obtain ⟨c, rest, rfl, hblank, hmark⟩ := h.starts
  simp only [List.mem_cons, List.not_mem_nil, or_false, not_or] at hmark
  have hbare (s q : Bool) : peelStrength s q (c :: rest) = (s, q, c :: rest) := by
    rw [peelStrength]
    · rintro _ ⟨rfl, -⟩
      exact hmark.1 rfl
    · rintro _ ⟨rfl, -⟩
      exact hmark.2.1 rfl
  unfold strengthMarks
  cases flags.strong <;> cases flags.sequence <;>
    simp [peelStrength, hbare, Text.trimStart_cons hblank,
      Text.trimStart_cons (c := '~') (by decide)]

theorem peelRest_marks (h : Bare body) (flags : Flags) :
    peelRest flags.nullable flags.key (strengthMarks flags ++ body) = (flags, body) := by
  rw [peelRest, peelStrength_marks h]

/-- A nullable mark is peeled off a text that ends with no blank and no such mark. -/
theorem peelNullable_append (before : List Char) {c : Char} (hblank : Text.isBlank c = false)
    (hmark : c ≠ '?') (nullable : Bool) :
    peelNullable (before ++ [c] ++ if nullable then ['?'] else []) = (nullable, before ++ [c]) := by
  cases nullable with
  | true => simp [peelNullable, Text.stripSuffix, Text.trimEnd_concat hblank]
  | false => simp [peelNullable, Text.stripSuffix, hmark]

theorem peelPrimary_of_ne {c : Char} (h : c ≠ '*') (rest : List Char) :
    peelPrimary (c :: rest) = (false, c :: rest) := by
  simp [peelPrimary, Text.stripPrefix, h.symm]

theorem splitGroupKey_of_ne {c : Char} (h : c ≠ '(') (rest : List Char) :
    splitGroupKey (c :: rest) = none := by
  unfold splitGroupKey
  split
  · rename_i heq
    cases heq
    exact absurd rfl h
  · rfl

/-- The text between the key marks of flags: a body with its other marks. -/
def innerText (flags : Flags) (body : List Char) : List Char :=
  strengthMarks flags ++ body ++ if flags.nullable then ['?'] else []

theorem mark_eq (flags : Flags) (body : List Char) :
    mark flags body =
      match flags.key with
      | .none => innerText flags body
      | .primary => '*' :: innerText flags body
      | .group => '(' :: innerText flags body ++ [')'] :=
  rfl

theorem Bare.inner_starts (h : Bare body) (flags : Flags) :
    ∃ c rest, innerText flags body = c :: rest ∧ Text.isBlank c = false ∧ c ≠ '*' ∧ c ≠ '(' := by
  obtain ⟨c, rest, hstart, hc⟩ := h.strength_starts flags
  exact ⟨c, _, by rw [innerText, hstart]; rfl, hc⟩

theorem Bare.inner_ends (h : Bare body) (flags : Flags) :
    ∃ before c, innerText flags body = before ++ [c] ∧ Text.isBlank c = false := by
  unfold innerText
  cases flags.nullable with
  | true => exact ⟨_, '?', rfl, by decide⟩
  | false =>
    obtain ⟨before, c, hend, hblank, -⟩ := h.strength_ends flags
    exact ⟨before, c, by simpa using hend, hblank⟩

theorem trim_innerText (h : Bare body) (flags : Flags) :
    Text.trim (innerText flags body) = innerText flags body := by
  obtain ⟨c, rest, hstart, hfirst, -⟩ := h.inner_starts flags
  obtain ⟨before, last, hend, hlast⟩ := h.inner_ends flags
  exact Text.trim_of_ends hstart hend hfirst hlast

/-- A marked text has no blanks at its ends. -/
theorem trim_mark (h : Bare body) (flags : Flags) :
    Text.trim (mark flags body) = mark flags body := by
  obtain ⟨before, last, hend, hlast⟩ := h.inner_ends flags
  rw [mark_eq]
  cases flags.key with
  | none => exact trim_innerText h flags
  | primary =>
    have hends : '*' :: innerText flags body = ('*' :: before) ++ [last] := by rw [hend]; rfl
    exact Text.trim_of_ends rfl hends (by decide) hlast
  | group => exact Text.trim_of_ends rfl rfl (by decide) (by decide)

theorem matched_innerText (flags : Flags) (hm : Matched false body) :
    Matched false (innerText flags body) := by
  have hmarks : Matched false (strengthMarks flags) := by
    unfold strengthMarks
    cases flags.strong <;> cases flags.sequence <;>
      exact .of_plain (List.forall_iff_forall_mem.1 (by decide))
  refine (hmarks.append hm).append ?_
  cases flags.nullable <;> exact .of_plain (List.forall_iff_forall_mem.1 (by decide))

/-- The marks of flags keep the brackets of a text matched. -/
theorem matched_mark (flags : Flags) (hm : Matched false body) :
    Matched false (mark flags body) := by
  have hin := matched_innerText flags hm
  rw [mark_eq]
  cases flags.key with
  | none => exact hin
  | primary => exact .plain (by decide) (by decide) (by decide) hin
  | group => exact .enclose (by decide) (by decide) (by decide) hin.allow

theorem splitGroupKey_enclose {inside : List Char} (h : Matched false inside) :
    splitGroupKey ('(' :: inside ++ [')']) = some (inside, false) := by
  have hpartner := h.partnerAfter_closing (show isClosing ')' = true by decide) []
  simp only [List.cons_append, splitGroupKey, hpartner]

/-- The marks of flags are peeled off a bare text whose brackets match. -/
theorem peel_mark (whole : String) (flags : Flags) (h : Bare body) (hm : Matched false body) :
    peel whole (mark flags body) = .ok (flags, body) := by
  obtain ⟨first, rest, hfirst, hblank, hstar, hparen⟩ := h.strength_starts flags
  obtain ⟨before, last, hend, hlast, hquestion⟩ := h.strength_ends flags
  have hrest := peelRest_marks h flags
  have hnull (key : List Char) :
      peelNullable (key ++ innerText flags body) =
        (flags.nullable, key ++ (strengthMarks flags ++ body)) := by
    have hpeel := peelNullable_append (key ++ before) hlast hquestion flags.nullable
    simpa only [innerText, hend, List.append_assoc] using hpeel
  rw [peel, trim_mark h, mark_eq]
  cases hkey : flags.key with
  | none =>
    rw [hkey, hfirst] at hrest
    have hpeel := hnull []
    rw [List.nil_append, List.nil_append, hfirst] at hpeel
    simp only [hpeel, peelPrimary_of_ne hstar, peelKey, splitGroupKey_of_ne hparen,
      Bool.false_eq_true, if_false, hrest]
  | primary =>
    have hbare : peelNullable (strengthMarks flags ++ body) =
        (false, strengthMarks flags ++ body) := by
      have hpeel := peelNullable_append before hlast hquestion false
      simpa only [hend, Bool.false_eq_true, if_false, List.append_nil] using hpeel
    rw [hkey, hfirst] at hrest
    have hpeel := hnull ['*']
    rw [hfirst] at hbare hpeel
    simp only [List.singleton_append] at hpeel
    simp only [hpeel, peelPrimary, Text.stripPrefix, if_true, Text.trimStart_cons hblank, peelKey,
      splitGroupKey_of_ne hparen, hbare, Bool.or_false, hrest]
  | group =>
    have hsplit := splitGroupKey_enclose (matched_innerText flags hm)
    have houter : peelNullable ('(' :: innerText flags body ++ [')']) =
        (false, '(' :: innerText flags body ++ [')']) := by
      have hpeel := peelNullable_append ('(' :: innerText flags body) (c := ')')
        (by decide) (by decide) false
      simpa only [Bool.false_eq_true, if_false, List.append_nil] using hpeel
    rw [hkey] at hrest
    have hpeel := hnull []
    rw [List.nil_append, List.nil_append] at hpeel
    simp only [houter]
    rw [List.cons_append, peelPrimary_of_ne (by decide), ← List.cons_append]
    simp only [peelKey, hsplit, trim_innerText h, hpeel, Bool.false_eq_true, if_false,
      Bool.false_or, hrest]

end Peeling

end TypeExpr

end TypedSheets
