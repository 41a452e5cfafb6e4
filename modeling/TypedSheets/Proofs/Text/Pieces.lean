import TypedSheets.Cell
import TypedSheets.Text.Cut

/-!
# Pieces of texts

What a text is cut into stands in it as a whole: its trimmed text and the sides of a separator.

## Main results

* `Text.infix_trim` — the trimmed text stands in the text.
* `Text.eq_of_cutAt`, `Text.cutAt_append_cons` — the sides of a separator, from the text and back.
* `Text.eq_append_of_stripSuffix` — the mark at the end of a text, and what is before it.
-/

namespace TypedSheets

namespace Text

theorem suffix_trimStart (text : List Char) : trimStart text <:+ text :=
  List.dropWhile_suffix _

theorem prefix_trimEnd (text : List Char) : trimEnd text <+: text := by
  rw [← List.reverse_suffix, trimEnd, List.reverse_reverse]
  exact List.dropWhile_suffix _

theorem infix_trim (text : List Char) : trim text <:+: text :=
  (prefix_trimEnd _).isInfix.trans (suffix_trimStart text).isInfix

/-- The sides of a separator and the separator make up the text. -/
theorem eq_of_cutAt {mark : Char} {text before after : List Char}
    (h : cutAt mark text = some (before, after)) : text = before ++ mark :: after := by
  induction text generalizing before with
  | nil => cases h
  | cons c rest ih =>
    unfold cutAt at h
    split at h
    · rename_i hc
      cases h
      rw [hc]
      rfl
    · obtain ⟨⟨b, a⟩, hrest, heq⟩ := Option.map_eq_some_iff.1 h
      cases heq
      rw [ih hrest, List.cons_append]

theorem cutAt_append_cons {mark : Char} {before : List Char} (h : mark ∉ before)
    (after : List Char) : cutAt mark (before ++ mark :: after) = some (before, after) := by
  induction before with
  | nil => exact if_pos rfl
  | cons c before ih =>
    rw [List.mem_cons, not_or] at h
    rw [List.cons_append, cutAt, if_neg (Ne.symm h.1), ih h.2]
    rfl

theorem cutAt_of_not_mem {mark : Char} {text : List Char} (h : mark ∉ text) :
    cutAt mark text = none := by
  induction text with
  | nil => rfl
  | cons c text ih =>
    rw [List.mem_cons, not_or] at h
    rw [cutAt, if_neg (Ne.symm h.1), ih h.2]
    rfl

/-- The first piece stands before the first separator. -/
theorem cutAll_append_cons {mark : Char} {before : List Char} (h : mark ∉ before)
    (after : List Char) : cutAll mark (before ++ mark :: after) = before :: cutAll mark after := by
  induction before with
  | nil => exact if_pos rfl
  | cons c before ih =>
    rw [List.mem_cons, not_or] at h
    rw [List.cons_append, cutAll, if_neg (Ne.symm h.1), ih h.2]

theorem cutAll_of_not_mem {mark : Char} {text : List Char} (h : mark ∉ text) :
    cutAll mark text = [text] := by
  induction text with
  | nil => rfl
  | cons c text ih =>
    rw [List.mem_cons, not_or] at h
    rw [cutAll, if_neg (Ne.symm h.1), ih h.2]

/-- The first side of the first separator is without it. -/
theorem not_mem_of_cutAt {mark : Char} {text before after : List Char}
    (h : cutAt mark text = some (before, after)) : mark ∉ before := by
  have hmem : mark ∈ text := by
    rw [eq_of_cutAt h]
    simp
  obtain ⟨before', after', rfl, hbefore⟩ := List.eq_append_cons_of_mem hmem
  rw [cutAt_append_cons hbefore] at h
  cases h
  exact hbefore

/-- What a text is cut into is the whole text, or the part before the first mark and what the part
behind it is cut into. -/
theorem eq_of_cutAll {mark : Char} {text piece : List Char} {pieces : List (List Char)}
    (h : cutAll mark text = piece :: pieces) :
    pieces = [] ∧ text = piece ∨
      ∃ after, text = piece ++ mark :: after ∧ cutAll mark after = pieces := by
  by_cases hmem : mark ∈ text
  · obtain ⟨before, after, rfl, hbefore⟩ := List.eq_append_cons_of_mem hmem
    rw [cutAll_append_cons hbefore] at h
    cases h
    exact .inr ⟨after, rfl, rfl⟩
  · rw [cutAll_of_not_mem hmem] at h
    cases h
    exact .inl ⟨rfl, rfl⟩

theorem eq_of_cutAll_singleton {mark : Char} {text piece : List Char}
    (h : cutAll mark text = [piece]) : text = piece := by
  rcases eq_of_cutAll h with ⟨-, rfl⟩ | ⟨after, -, hafter⟩
  · rfl
  · by_cases hmem : mark ∈ after
    · obtain ⟨before, rest, rfl, hbefore⟩ := List.eq_append_cons_of_mem hmem
      rw [cutAll_append_cons hbefore] at hafter
      cases hafter
    · rw [cutAll_of_not_mem hmem] at hafter
      cases hafter

/-- The sides of the first separator are told from the text. -/
theorem append_cons_inj {mark : Char} {before before' after after' : List Char}
    (h : mark ∉ before) (h' : mark ∉ before') :
    before ++ mark :: after = before' ++ mark :: after' ↔ before = before' ∧ after = after' := by
  refine ⟨fun heq => ?_, fun ⟨h, h'⟩ => h ▸ h' ▸ rfl⟩
  have hcut := congrArg (cutAt mark) heq
  rw [cutAt_append_cons h, cutAt_append_cons h'] at hcut
  exact Prod.mk.inj (Option.some.inj hcut)

/-- The sides of a separator stand in the text. -/
theorem infix_of_cutAt {mark : Char} {text before after : List Char}
    (h : cutAt mark text = some (before, after)) : before <:+: text ∧ after <:+: text := by
  rw [eq_of_cutAt h]
  exact ⟨(List.prefix_append _ _).isInfix,
    ((List.suffix_cons mark after).trans (List.suffix_append _ _)).isInfix⟩

/-- The mark at the end and what is before it make up the text. -/
theorem eq_append_of_stripSuffix {mark : Char} {text rest : List Char}
    (h : stripSuffix mark text = some rest) : text = rest ++ [mark] := by
  unfold stripSuffix at h
  split at h
  · rename_i hlast
    cases h
    obtain ⟨before, rfl⟩ := List.getLast?_eq_some_iff.1 hlast
    rw [List.dropLast_concat]
  · cases h

end Text

namespace Cell

/-- The text of a cell without outer blanks stands in the text of the cell. -/
theorem infix_display_normalize {c : Cell} (h : c.isNull = false) :
    c.normalize.display.toList <:+: c.display.toList := by
  cases c with
  | text s =>
    rw [isNull] at h
    rw [normalize, h]
    simpa [display, Text.trimmed] using Text.infix_trim s.toList
  | _ => exact List.infix_refl _

theorem infix_of_normalize {c : Cell} {s : String} (h : c.normalize = .text s) :
    s.toList <:+: c.display.toList := by
  cases c with
  | text s' =>
    rw [normalize] at h
    split at h
    · cases h
    · cases h
      simpa [display, Text.trimmed] using Text.infix_trim s'.toList
  | _ => cases h

end Cell

end TypedSheets
