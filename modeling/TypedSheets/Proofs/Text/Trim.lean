import Mathlib.Data.List.DropRight
import Mathlib.Data.List.TakeWhile
import TypedSheets.Cell

/-!
# Trimmed texts

A trimmed text has no blanks left to trim, and so a cell is normalized once and for all.

## Main results

* `Text.trim_trim` — trimming twice is trimming once.
* `Cell.normalize_normalize`, `Cell.isNull_normalize` — normalizing keeps what a cell stands for.
-/

namespace TypedSheets

namespace Text

theorem trimEnd_eq_rdropWhile (text : List Char) : trimEnd text = text.rdropWhile isBlank := rfl

/-- Trimming the end leaves no new blanks at the start. -/
theorem trimStart_trim (text : List Char) : trimStart (trim text) = trim text := by
  unfold trim trimStart
  rw [trimEnd_eq_rdropWhile, List.dropWhile_eq_self_iff]
  intro hpos
  have hpre := List.rdropWhile_prefix isBlank (text.dropWhile isBlank)
  have hlen := Nat.lt_of_lt_of_le hpos hpre.length_le
  rw [hpre.getElem hpos]
  exact List.dropWhile_eq_self_iff.1 (List.dropWhile_idempotent isBlank text) hlen

/-- Trimming twice is trimming once. -/
theorem trim_trim (text : List Char) : trim (trim text) = trim text := by
  show trimEnd (trimStart (trim text)) = trim text
  rw [trimStart_trim]
  exact List.rdropWhile_idempotent isBlank (trimStart text)

/-- A trimmed text has no blanks at its end. -/
theorem trimEnd_trim (text : List Char) : trimEnd (trim text) = trim text := by
  have := trim_trim text
  rwa [trim, trimStart_trim] at this

/-- Behind its trimmed end a text has blanks only. -/
theorem exists_blanks (text : List Char) :
    ∃ blanks, (∀ c ∈ blanks, isBlank c = true) ∧ text = trimEnd text ++ blanks :=
  ⟨text.rtakeWhile isBlank, fun _ hc => List.mem_rtakeWhile_imp hc,
    (List.rdropWhile_append_rtakeWhile ..).symm⟩

/-- A text is its trimmed text with blanks around it. -/
theorem exists_blanks_around (text : List Char) :
    ∃ before after, (∀ c ∈ before, isBlank c = true) ∧ (∀ c ∈ after, isBlank c = true) ∧
      text = before ++ trim text ++ after := by
  obtain ⟨after, hafter, heq⟩ := exists_blanks (trimStart text)
  refine ⟨text.takeWhile isBlank, after, fun c hc => List.mem_takeWhile_imp hc, hafter, ?_⟩
  rw [List.append_assoc, trim, ← heq, trimStart, List.takeWhile_append_dropWhile]

end Text

namespace Cell

theorem isNullText_trim (text : List Char) : isNullText (Text.trim text) = isNullText text := by
  simp only [isNullText, Text.trim_trim]

/-- Normalizing twice is normalizing once. -/
theorem normalize_normalize (c : Cell) : c.normalize.normalize = c.normalize := by
  cases c with
  | text s =>
    by_cases h : isNullText s.toList = true
    · simp [normalize, h]
    · simp [normalize, h, Text.trimmed, isNullText_trim, Text.trim_trim]
  | _ => rfl

/-- Normalizing makes no cell empty that was not. -/
theorem isNull_normalize (c : Cell) : c.normalize.isNull = c.isNull := by
  cases c with
  | text s =>
    by_cases h : isNullText s.toList = true
    · simp [normalize, isNull, h]
    · simp [normalize, isNull, h, Text.trimmed, isNullText_trim]
  | _ => rfl

end Cell

end TypedSheets
