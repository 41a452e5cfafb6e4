import TypedSheets.Proofs.Text.Words
import TypedSheets.Proofs.TypeExpr.Matched

/-!
# Partners in balanced texts

The partner of a bracket is found by counting, with brackets of every kind alike. In a text that
passes the check of its brackets the partner is one of the same kind, and the text between the two
passes the check on its own.

## Main results

* `Bracket.checkFrom_of_partnerAfter` — the partner of a bracket in a text that passes the check.
* `Bracket.check_trim` — blanks around a text make no difference to its brackets.
-/

namespace TypedSheets

/-- A blank is no bracket. -/
theorem Text.plain_of_isBlank {c : Char} (h : isBlank c = true) :
    Bracket.isOpening c = false ∧ Bracket.isClosing c = false ∧ c ≠ ':' := by
  have hall : ∀ n ∈ blankCodes, Bracket.isOpening (Char.ofNat n) = false ∧
      Bracket.isClosing (Char.ofNat n) = false ∧ Char.ofNat n ≠ ':' := by
    decide
  simpa only [Char.ofNat_toNat] using hall c.toNat (mem_blankCodes h)

namespace Bracket

/-- What is passed over on the way to a partner stands in front of what is found. -/
theorem exists_of_map_cons {d : Char} {inside after : List Char}
    {found : Option (List Char × List Char)}
    (h : (found.map fun p => (d :: p.1, p.2)) = some (inside, after)) :
    ∃ rest, found = some (rest, after) ∧ inside = d :: rest := by
  obtain ⟨p, hp, heq⟩ := Option.map_eq_some_iff.1 h
  cases heq
  exact ⟨p.1, hp, rfl⟩

/-- A closing bracket in a text that passes the check closes the innermost open one. -/
theorem checkFrom_closing_ok {c bracket : Char} {pending rest : List Char}
    (hc : isClosing c = true) (h : checkFrom (bracket :: pending) (c :: rest) = .ok ()) :
    bracket = opener c ∧ checkFrom pending rest = .ok () := by
  by_cases hopener : bracket = opener c
  · rw [hopener, checkFrom_closing hc] at h
    exact ⟨hopener, h⟩
  · rw [checkFrom, if_neg (by simp [isOpening_of_isClosing hc]), if_pos hc, if_neg hopener] at h
    cases h

/-- **The partner of a bracket is of its kind**, and the text up to it passes the check on its own,
as does the text behind it with the brackets that are open further out. -/
theorem checkFrom_of_partnerAfter {inner below text inside after : List Char} {bracket : Char}
    (h : checkFrom (inner ++ bracket :: below) text = .ok ())
    (hp : partnerAfter inner.length text = some (inside, after)) :
    ∃ c, isClosing c = true ∧ opener c = bracket ∧ text = inside ++ c :: after ∧
      checkFrom inner inside = .ok () ∧ checkFrom below after = .ok () := by
  induction text generalizing inner inside with
  | nil => cases hp
  | cons d text ih =>
    cases ho : isOpening d with
    | true =>
      rw [checkFrom_opening ho] at h
      rw [partnerAfter_opening ho] at hp
      obtain ⟨rest, hrest, rfl⟩ := exists_of_map_cons hp
      have hinner : checkFrom ((d :: inner) ++ bracket :: below) text = .ok () := h
      obtain ⟨c, hc, hopener, rfl, hinside, hafter⟩ := ih hinner hrest
      exact ⟨c, hc, hopener, rfl, (checkFrom_opening ho inner).trans hinside, hafter⟩
    | false =>
      cases hd : isClosing d with
      | true =>
        cases inner with
        | nil =>
          rw [List.length_nil, partnerAfter_closing_zero hd] at hp
          cases hp
          obtain ⟨hopener, hafter⟩ := checkFrom_closing_ok hd h
          exact ⟨d, hd, hopener.symm, rfl, rfl, hafter⟩
        | cons innermost inner =>
          obtain ⟨rfl, hbelow⟩ := checkFrom_closing_ok hd h
          rw [List.length_cons, partnerAfter_closing_succ hd] at hp
          obtain ⟨rest, hrest, rfl⟩ := exists_of_map_cons hp
          obtain ⟨c, hc, hopener, rfl, hinside, hafter⟩ := ih hbelow hrest
          exact ⟨c, hc, hopener, rfl, (checkFrom_closing hd inner).trans hinside, hafter⟩
      | false =>
        rw [checkFrom_plain ho hd] at h
        rw [partnerAfter_plain ho hd] at hp
        obtain ⟨rest, hrest, rfl⟩ := exists_of_map_cons hp
        obtain ⟨c, hc, hopener, rfl, hinside, hafter⟩ := ih h hrest
        exact ⟨c, hc, hopener, rfl, (checkFrom_plain ho hd inner).trans hinside, hafter⟩

/-- The partner of a bracket that a text starts with. -/
theorem check_of_partnerAfter {text inside after : List Char} {bracket : Char}
    (h : checkFrom [bracket] text = .ok ()) (hp : partnerAfter 0 text = some (inside, after)) :
    ∃ c, isClosing c = true ∧ opener c = bracket ∧ text = inside ++ c :: after ∧
      check inside = .ok () ∧ check after = .ok () :=
  @checkFrom_of_partnerAfter [] [] text inside after bracket h hp

/-- A parenthesis is closed by a parenthesis. -/
theorem eq_of_opener {c : Char} (hc : isClosing c = true) (h : opener c = '(') :
    c = ')' := by
  simp only [isClosing, Bool.or_eq_true, beq_iff_eq] at hc
  rcases hc with ((rfl | rfl) | rfl) | rfl
  · rfl
  all_goals cases h

/-- What follows a text is behind the partner that is found in it. -/
theorem partnerAfter_append {pending : Nat} {text inside after : List Char}
    (h : partnerAfter pending text = some (inside, after)) (rest : List Char) :
    partnerAfter pending (text ++ rest) = some (inside, after ++ rest) := by
  induction text generalizing pending inside with
  | nil => cases h
  | cons c text ih =>
    rw [List.cons_append]
    cases ho : isOpening c with
    | true =>
      rw [partnerAfter_opening ho] at h ⊢
      obtain ⟨inside, hinside, rfl⟩ := exists_of_map_cons h
      rw [ih hinside]
      rfl
    | false =>
      cases hc : isClosing c with
      | true =>
        cases pending with
        | zero =>
          rw [partnerAfter_closing_zero hc] at h ⊢
          cases h
          rfl
        | succ pending =>
          rw [partnerAfter_closing_succ hc] at h ⊢
          obtain ⟨inside, hinside, rfl⟩ := exists_of_map_cons h
          rw [ih hinside]
          rfl
      | false =>
        rw [partnerAfter_plain ho hc] at h ⊢
        obtain ⟨inside, hinside, rfl⟩ := exists_of_map_cons h
        rw [ih hinside]
        rfl

/-- What comes last is checked with the brackets that are open before it. -/
theorem checkFrom_append_congr {rest rest' : List Char}
    (h : ∀ pending, checkFrom pending rest = checkFrom pending rest') (pending text : List Char) :
    checkFrom pending (text ++ rest) = checkFrom pending (text ++ rest') := by
  induction text generalizing pending with
  | nil => exact h pending
  | cons c text ih =>
    rw [List.cons_append, List.cons_append]
    cases ho : isOpening c with
    | true => rw [checkFrom_opening ho, checkFrom_opening ho, ih]
    | false =>
      cases hc : isClosing c with
      | true =>
        cases pending with
        | nil => simp [checkFrom, ho, hc]
        | cons bracket pending => simp [checkFrom, ho, hc, ih]
      | false => rw [checkFrom_plain ho hc, checkFrom_plain ho hc, ih]

/-- Blanks around a text make no difference to its brackets. -/
theorem check_trim (text : List Char) : check (Text.trim text) = check text := by
  have hblanks {blanks : List Char} (h : ∀ c ∈ blanks, Text.isBlank c = true) :
      Matched false blanks :=
    .of_plain fun c hc => Text.plain_of_isBlank (h c hc)
  have hstart (text : List Char) : check (Text.trimStart text) = check text := by
    have hmatched := hblanks fun c hc => List.mem_takeWhile_imp (p := Text.isBlank) (l := text) hc
    have hsplit := hmatched.checkFrom_append [] (Text.trimStart text)
    rwa [Text.trimStart, List.takeWhile_append_dropWhile, eq_comm] at hsplit
  have hend (text : List Char) : check (Text.trimEnd text) = check text := by
    have hmatched := hblanks fun c hc => List.mem_rtakeWhile_imp (p := Text.isBlank) (l := text) hc
    have hempty (pending : List Char) :
        checkFrom pending (text.rtakeWhile Text.isBlank) = checkFrom pending [] := by
      simpa using hmatched.checkFrom_append pending []
    have hsame := checkFrom_append_congr hempty [] (Text.trimEnd text)
    rw [Text.trimEnd_eq_rdropWhile, List.rdropWhile_append_rtakeWhile, List.append_nil] at hsame
    exact hsame.symm
  rw [Text.trim, hend, hstart]

/-- A character behind a text that is no bracket makes no difference to its brackets. -/
theorem check_concat {c : Char} (ho : isOpening c = false) (hc : isClosing c = false)
    (text : List Char) : check (text ++ [c]) = check text := by
  have hempty (pending : List Char) : checkFrom pending [c] = checkFrom pending [] :=
    checkFrom_plain ho hc pending
  rw [check, checkFrom_append_congr hempty, List.append_nil]
  rfl

end Bracket

end TypedSheets
