import TypedSheets.TypeExpr.Parser

/-!
# Texts whose brackets match

A text in which every bracket has its partner is passed over as a whole: by the check of the
brackets, by the search for the partner of a bracket before it, and by the search for the colon of a
map. The canonical text of an annotation is put together from such texts.

## Main definitions

* `Bracket.Matched` — the texts whose brackets match; with `colons`, colons may stand outside of
  brackets.

## Main results

* `Bracket.Matched.checkFrom_append`, `Bracket.Matched.partnerAfter_append`,
  `Bracket.Matched.splitMapEntry_append` — what passes over a text whose brackets match.
-/

namespace TypedSheets.Bracket

/-- The texts whose brackets match. Colons stand inside of brackets, and also outside of them if
`colons` says so. -/
inductive Matched : (colons : Bool) → List Char → Prop
  | nil {colons} : Matched colons []
  /-- A character that is no bracket. -/
  | plain {colons c rest} (ho : isOpening c = false) (hc : isClosing c = false)
      (hcolon : c = ':' → colons = true) (h : Matched colons rest) : Matched colons (c :: rest)
  /-- A bracket with its partner. -/
  | enclosed {colons opening closing inside rest} (ho : isOpening opening = true)
      (hc : isClosing closing = true) (hpair : opener closing = opening)
      (hin : Matched true inside) (h : Matched colons rest) :
      Matched colons (opening :: inside ++ closing :: rest)

theorem isOpening_of_isClosing {c : Char} (h : isClosing c = true) : isOpening c = false := by
  simp only [isClosing, Bool.or_eq_true, beq_iff_eq] at h
  rcases h with ((rfl | rfl) | rfl) | rfl <;> decide

/-! ### Single characters -/

section Steps

variable {c : Char} {rest : List Char}

theorem checkFrom_opening (h : isOpening c = true) (pending : List Char) :
    checkFrom pending (c :: rest) = checkFrom (c :: pending) rest := by
  cases pending <;> simp [checkFrom, h]

theorem checkFrom_closing (h : isClosing c = true) (pending : List Char) :
    checkFrom (opener c :: pending) (c :: rest) = checkFrom pending rest := by
  simp [checkFrom, h, isOpening_of_isClosing h]

theorem checkFrom_plain (ho : isOpening c = false) (hc : isClosing c = false)
    (pending : List Char) : checkFrom pending (c :: rest) = checkFrom pending rest := by
  cases pending <;> simp [checkFrom, ho, hc]

theorem partnerAfter_opening (h : isOpening c = true) (pending : Nat) :
    partnerAfter pending (c :: rest) =
      (partnerAfter (pending + 1) rest).map fun p => (c :: p.1, p.2) := by
  cases pending <;> simp [partnerAfter, h]

theorem partnerAfter_closing_succ (h : isClosing c = true) (pending : Nat) :
    partnerAfter (pending + 1) (c :: rest) =
      (partnerAfter pending rest).map fun p => (c :: p.1, p.2) := by
  simp [partnerAfter, h, isOpening_of_isClosing h]

theorem partnerAfter_closing_zero (h : isClosing c = true) :
    partnerAfter 0 (c :: rest) = some ([], rest) := by
  simp [partnerAfter, h, isOpening_of_isClosing h]

theorem partnerAfter_plain (ho : isOpening c = false) (hc : isClosing c = false) (pending : Nat) :
    partnerAfter pending (c :: rest) =
      (partnerAfter pending rest).map fun p => (c :: p.1, p.2) := by
  cases pending <;> simp [partnerAfter, ho, hc]

theorem splitMapEntry_opening (h : isOpening c = true) (depth : Int) :
    splitMapEntry depth (c :: rest) =
      (splitMapEntry (depth + 1) rest).map fun p => (c :: p.1, p.2) := by
  have hcolon : c ≠ ':' := by
    rintro rfl
    cases h
  simp [splitMapEntry, h, hcolon]

theorem splitMapEntry_closing (h : isClosing c = true) (depth : Int) :
    splitMapEntry depth (c :: rest) =
      (splitMapEntry (depth - 1) rest).map fun p => (c :: p.1, p.2) := by
  have hcolon : c ≠ ':' := by
    rintro rfl
    cases h
  simp [splitMapEntry, h, isOpening_of_isClosing h, hcolon]

theorem splitMapEntry_plain (ho : isOpening c = false) (hc : isClosing c = false) {depth : Int}
    (hcut : c = ':' → depth ≠ 0) :
    splitMapEntry depth (c :: rest) =
      (splitMapEntry depth rest).map fun p => (c :: p.1, p.2) := by
  simpa [splitMapEntry, ho, hc] using fun h h0 => absurd h0 (hcut h)

end Steps

namespace Matched

variable {colons : Bool} {s t : List Char}

theorem append (hs : Matched colons s) (ht : Matched colons t) : Matched colons (s ++ t) := by
  induction hs with
  | nil => exact ht
  | plain ho hc hcolon _ ih => exact .plain ho hc hcolon (ih ht)
  | enclosed ho hc hpair hin _ _ ih =>
    rw [List.append_assoc, List.cons_append]
    exact .enclosed ho hc hpair hin (ih ht)

/-- Where colons may stand they need not. -/
theorem allow (h : Matched colons s) : Matched true s := by
  induction h with
  | nil => exact .nil
  | plain ho hc _ _ ih => exact .plain ho hc (fun _ => rfl) ih
  | enclosed ho hc hpair hin _ _ ih => exact .enclosed ho hc hpair hin ih

/-- A text in a pair of brackets. -/
theorem enclose {opening closing : Char} (ho : isOpening opening = true)
    (hc : isClosing closing = true) (hpair : opener closing = opening) (h : Matched true s) :
    Matched colons (opening :: s ++ [closing]) :=
  .enclosed ho hc hpair h .nil

/-- A text without brackets and colons. -/
theorem of_plain (h : ∀ c ∈ s, isOpening c = false ∧ isClosing c = false ∧ c ≠ ':') :
    Matched colons s := by
  induction s with
  | nil => exact .nil
  | cons c s ih =>
    obtain ⟨ho, hc, hcolon⟩ := h c (List.mem_cons_self ..)
    exact .plain ho hc (fun h => absurd h hcolon) (ih fun d hd => h d (List.mem_cons_of_mem c hd))

/-! ### Passing over -/

/-- The check of the brackets passes over a text whose brackets match. -/
theorem checkFrom_append (h : Matched colons s) (pending rest : List Char) :
    checkFrom pending (s ++ rest) = checkFrom pending rest := by
  induction h generalizing pending rest with
  | nil => rfl
  | plain ho hc _ _ ih => rw [List.cons_append, checkFrom_plain ho hc, ih]
  | enclosed ho hc hpair _ _ ihin ih =>
    rw [List.append_assoc, List.cons_append, List.cons_append, checkFrom_opening ho, ihin, ← hpair,
      checkFrom_closing hc, ih]

/-- The search for the partner of a bracket passes over a text whose brackets match. -/
theorem partnerAfter_append (h : Matched colons s) (pending : Nat) (rest : List Char) :
    partnerAfter pending (s ++ rest) =
      (partnerAfter pending rest).map fun p => (s ++ p.1, p.2) := by
  induction h generalizing pending rest with
  | nil => simp
  | plain ho hc _ _ ih =>
    rw [List.cons_append, partnerAfter_plain ho hc, ih, Option.map_map]
    rfl
  | enclosed ho hc hpair _ _ ihin ih =>
    rw [List.append_assoc, List.cons_append, List.cons_append, partnerAfter_opening ho, ihin,
      partnerAfter_closing_succ hc, ih]
    simp only [Option.map_map, Function.comp_def, List.append_assoc, List.cons_append]

/-- The search for the colon of a map passes over a text whose brackets match, inside of brackets
and, if no colons stand outside of those of the text, also at the top. -/
theorem splitMapEntry_append (h : Matched colons s) {depth : Int} (hdepth : 0 ≤ depth)
    (htop : depth = 0 → colons = false) (rest : List Char) :
    splitMapEntry depth (s ++ rest) =
      (splitMapEntry depth rest).map fun p => (s ++ p.1, p.2) := by
  induction h generalizing depth rest with
  | nil => simp
  | plain ho hc hcolon _ ih =>
    have hcut (h : _ = ':') : depth ≠ 0 := fun h0 =>
      Bool.noConfusion ((htop h0).symm.trans (hcolon h))
    rw [List.cons_append, splitMapEntry_plain ho hc hcut, ih hdepth htop, Option.map_map]
    rfl
  | enclosed ho hc hpair _ _ ihin ih =>
    rw [List.append_assoc, List.cons_append, List.cons_append, splitMapEntry_opening ho,
      ihin (by omega) (by omega), splitMapEntry_closing hc, Int.add_sub_cancel, ih hdepth htop]
    simp only [Option.map_map, Function.comp_def, List.append_assoc, List.cons_append]

/-- The brackets of a text whose brackets match are right. -/
theorem check (h : Matched colons s) : Bracket.check s = .ok () := by
  rw [Bracket.check, ← List.append_nil s, h.checkFrom_append]
  rfl

/-- The partner of a bracket before a text whose brackets match stands behind it. -/
theorem partnerAfter_closing (h : Matched colons s) {closing : Char}
    (hc : isClosing closing = true) (rest : List Char) :
    partnerAfter 0 (s ++ closing :: rest) = some (s, rest) := by
  rw [h.partnerAfter_append, partnerAfter_closing_zero hc]
  simp

end Matched

end TypedSheets.Bracket
