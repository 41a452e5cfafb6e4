import Mathlib.Data.List.Nodup
import TypedSheets.Proofs.Collections
import TypedSheets.Proofs.TypeExpr.Partners

/-!
# Pairs of brackets

The check of the brackets keeps the brackets that are open in a stack and compares each closing
bracket with the one on top. The search for the partner of a bracket has no stack: it counts, with
brackets of every kind alike. In a text that passes the check the two agree. Here the check is made
with the positions of the brackets in its stack, so that it tells which ones belong together.

## Main definitions

* `Bracket.pairsFrom`, `Bracket.pairs` — the check, with the pairs that it finds.
* `Bracket.closeOf` — the position of the partner of a bracket.

## Main results

* `Bracket.pairsFrom_cons_ok` — what a character does to the stack and the pairs.
* `Bracket.erase_pairsFrom` — without the positions it is the check of the brackets.
* `Bracket.exists_partner` — in a text that passes the check every open bracket has a partner.
* `Bracket.closeOf_pairs` — the partner of a bracket is the one that the check pairs it with.
-/

namespace TypedSheets.Bracket

/-! ### Pairs -/

/-- Reads a text from a position on. The brackets in `pending` are open, the innermost first, each
with its position. Gives the positions of the brackets that are closed, each with the position of
the one that closes it. -/
def pairsFrom : (pending : List (Nat × Char)) → (position : Nat) → List Char →
    Except Fault (List (Nat × Nat))
  | [], _, [] => .ok []
  | (_, bracket) :: _, _, [] => .error (.unclosed bracket)
  | pending, i, c :: rest =>
    if isOpening c then pairsFrom ((i, c) :: pending) (i + 1) rest
    else if isClosing c then
      match pending with
      | [] => .error (.unbalanced c)
      | (j, bracket) :: pending =>
        if bracket = opener c then (pairsFrom pending (i + 1) rest).map ((j, i) :: ·)
        else .error (.unbalanced c)
    else pairsFrom pending (i + 1) rest

/-- The pairs of brackets of a text, unless it fails the check. -/
def pairs (text : List Char) : Except Fault (List (Nat × Nat)) :=
  pairsFrom [] 0 text

/-- The position of the bracket that closes the one at a position, found by counting. A position is
the number of characters in front. -/
def closeOf (text : List Char) (i : Nat) : Option Nat :=
  (partnerAfter 0 (text.drop (i + 1))).map fun p => i + 1 + p.1.length

variable {pending : List (Nat × Char)} {start : Nat} {c : Char} {rest text : List Char}
  {found : List (Nat × Nat)}

/-! ### Single characters -/

theorem pairsFrom_opening (h : isOpening c = true) (pending : List (Nat × Char)) (start : Nat) :
    pairsFrom pending start (c :: rest) = pairsFrom ((start, c) :: pending) (start + 1) rest := by
  cases pending <;> simp [pairsFrom, h]

theorem pairsFrom_plain (ho : isOpening c = false) (hc : isClosing c = false)
    (pending : List (Nat × Char)) (start : Nat) :
    pairsFrom pending start (c :: rest) = pairsFrom pending (start + 1) rest := by
  cases pending <;> simp [pairsFrom, ho, hc]

theorem pairsFrom_closing_nil (h : isClosing c = true) (start : Nat) :
    pairsFrom [] start (c :: rest) = .error (.unbalanced c) := by
  simp [pairsFrom, h, isOpening_of_isClosing h]

theorem pairsFrom_closing_cons (h : isClosing c = true) (j : Nat) (bracket : Char)
    (pending : List (Nat × Char)) (start : Nat) :
    pairsFrom ((j, bracket) :: pending) start (c :: rest) =
      if bracket = opener c then (pairsFrom pending (start + 1) rest).map ((j, start) :: ·)
      else .error (.unbalanced c) := by
  simp [pairsFrom, h, isOpening_of_isClosing h]

/-- The positions make no difference to the check, to its faults neither. -/
theorem erase_pairsFrom (pending : List (Nat × Char)) (start : Nat) (text : List Char) :
    (pairsFrom pending start text).map (fun _ => ()) = checkFrom (pending.map Prod.snd) text := by
  induction text generalizing pending start with
  | nil => cases pending <;> rfl
  | cons c rest ih =>
    cases ho : isOpening c with
    | true =>
      rw [checkFrom_opening ho, pairsFrom_opening ho]
      exact ih ((start, c) :: pending) (start + 1)
    | false =>
      cases hc : isClosing c with
      | true =>
        cases pending with
        | nil =>
          rw [pairsFrom_closing_nil hc]
          simp [checkFrom, ho, hc, Except.map]
        | cons p pending =>
          obtain ⟨j, bracket⟩ := p
          rw [pairsFrom_closing_cons hc, List.map_cons]
          by_cases hopener : bracket = opener c
          · rw [if_pos hopener, hopener, checkFrom_closing hc, ← ih pending (start + 1)]
            cases pairsFrom pending (start + 1) rest <;> rfl
          · rw [if_neg hopener]
            simp [checkFrom, ho, hc, hopener, Except.map]
      | false =>
        rw [checkFrom_plain ho hc, pairsFrom_plain ho hc]
        exact ih pending (start + 1)

/-- What a character does where the check passes: an opening bracket is put on the stack, a closing
one takes its opening bracket from the stack and is paired with it, and anything else is passed
over. -/
theorem pairsFrom_cons_ok (h : pairsFrom pending start (c :: rest) = .ok found) :
    (isOpening c = true ∧ pairsFrom ((start, c) :: pending) (start + 1) rest = .ok found) ∨
      (isClosing c = true ∧ ∃ i below later, pending = (i, opener c) :: below ∧
        pairsFrom below (start + 1) rest = .ok later ∧ found = (i, start) :: later) ∨
      (isOpening c = false ∧ isClosing c = false ∧
        pairsFrom pending (start + 1) rest = .ok found) := by
  cases ho : isOpening c with
  | true =>
    rw [pairsFrom_opening ho] at h
    exact .inl ⟨rfl, h⟩
  | false =>
    cases hc : isClosing c with
    | true =>
      cases pending with
      | nil =>
        rw [pairsFrom_closing_nil hc] at h
        cases h
      | cons p pending =>
        obtain ⟨j, bracket⟩ := p
        rw [pairsFrom_closing_cons hc] at h
        split at h
        · rename_i hopener
          obtain ⟨later, hlater, rfl⟩ := Except.exists_of_map_ok h
          exact .inr (.inl ⟨rfl, j, pending, later, by rw [hopener], hlater, rfl⟩)
        · cases h
    | false =>
      rw [pairsFrom_plain ho hc] at h
      exact .inr (.inr ⟨rfl, rfl, h⟩)

/-! ### The stack -/

/-- Behind the start of a text the check goes on with some stack, and finds some of the pairs. -/
theorem exists_pairsFrom_append {before : List Char}
    (h : pairsFrom pending start (before ++ rest) = .ok found) :
    ∃ pending' found', pairsFrom pending' (start + before.length) rest = .ok found' ∧
      found' ⊆ found := by
  induction before generalizing pending start found with
  | nil => exact ⟨pending, found, h, List.Subset.refl _⟩
  | cons c before ih =>
    rw [List.length_cons, ← Nat.add_assoc, Nat.add_right_comm]
    rcases pairsFrom_cons_ok h with
      ⟨-, hnext⟩ | ⟨-, i, below, later, -, hnext, rfl⟩ | ⟨-, -, hnext⟩
    · exact ih hnext
    · obtain ⟨pending', found', hrest, hsub⟩ := ih hnext
      exact ⟨pending', found', hrest, List.Subset.trans hsub (List.subset_cons_self ..)⟩
    · exact ih hnext

/-- A bracket is closed once at most. -/
theorem nodup_pairsFrom (hpending : (pending.map Prod.fst).Nodup)
    (hbefore : ∀ i ∈ pending.map Prod.fst, i < start)
    (h : pairsFrom pending start text = .ok found) :
    (found.map Prod.fst).Nodup ∧
      ∀ i ∈ found.map Prod.fst, i ∈ pending.map Prod.fst ∨ start ≤ i := by
  induction text generalizing pending start found with
  | nil =>
    cases pending with
    | nil =>
      cases h
      exact ⟨List.nodup_nil, nofun⟩
    | cons p pending => cases h
  | cons c rest ih =>
    have hlater {stack : List Nat} (h : ∀ i ∈ stack, i < start) : ∀ i ∈ stack, i < start + 1 :=
      fun i hi => Nat.lt_succ_of_lt (h i hi)
    rcases pairsFrom_cons_ok h with
      ⟨-, hnext⟩ | ⟨-, j, below, later, rfl, hnext, rfl⟩ | ⟨-, -, hnext⟩
    · obtain ⟨hnodup, hfrom⟩ := @ih ((start, c) :: pending) (start + 1) found
        (List.nodup_cons.2 ⟨fun hmem => Nat.lt_irrefl _ (hbefore start hmem), hpending⟩)
        (List.forall_mem_cons.2 ⟨Nat.lt_succ_self _, hlater hbefore⟩) hnext
      refine ⟨hnodup, fun i hi => ?_⟩
      rcases hfrom i hi with hi | hi
      · rcases List.mem_cons.1 hi with rfl | hi
        · exact .inr (Nat.le_refl _)
        · exact .inl hi
      · exact .inr (Nat.le_of_succ_le hi)
    · -- the bracket that is closed is not in the stack any more, and all others come later
      obtain ⟨hfresh, hbelow⟩ := List.nodup_cons.1 hpending
      obtain ⟨hj, hbefore⟩ := List.forall_mem_cons.1 hbefore
      obtain ⟨hnodup, hfrom⟩ := ih hbelow (hlater hbefore) hnext
      refine ⟨List.nodup_cons.2 ⟨fun hmem => ?_, hnodup⟩, List.forall_mem_cons.2
        ⟨.inl (List.mem_cons_self ..), fun i hi => ?_⟩⟩
      · rcases hfrom j hmem with hmem | hmem
        · exact hfresh hmem
        · exact absurd (Nat.lt_of_lt_of_le hj (Nat.le_of_succ_le hmem)) (Nat.lt_irrefl _)
      · exact (hfrom i hi).imp (List.mem_cons_of_mem _) Nat.le_of_succ_le
    · obtain ⟨hnodup, hfrom⟩ := ih hpending (hlater hbefore) hnext
      exact ⟨hnodup, fun i hi => (hfrom i hi).imp_right Nat.le_of_succ_le⟩

/-! ### Partners -/

/-- In a text that passes the check every open bracket has a partner. -/
theorem exists_partner {inner below : List Char} {bracket : Char}
    (h : checkFrom (inner ++ bracket :: below) text = .ok ()) :
    ∃ inside after, partnerAfter inner.length text = some (inside, after) := by
  induction text generalizing inner with
  | nil => cases inner <;> cases h
  | cons d text ih =>
    cases ho : isOpening d with
    | true =>
      rw [checkFrom_opening ho] at h
      obtain ⟨inside, after, hp⟩ := @ih (d :: inner) h
      exact ⟨d :: inside, after, by rw [partnerAfter_opening ho, ← List.length_cons, hp]; rfl⟩
    | false =>
      cases hd : isClosing d with
      | true =>
        cases inner with
        | nil => exact ⟨[], text, partnerAfter_closing_zero hd⟩
        | cons innermost inner =>
          obtain ⟨inside, after, hp⟩ := ih (checkFrom_closing_ok hd h).2
          refine ⟨d :: inside, after, ?_⟩
          rw [List.length_cons, partnerAfter_closing_succ hd, hp]
          rfl
      | false =>
        rw [checkFrom_plain ho hd] at h
        obtain ⟨inside, after, hp⟩ := ih h
        exact ⟨d :: inside, after, by rw [partnerAfter_plain ho hd, hp]; rfl⟩

/-- An open bracket is paired with its partner. -/
theorem mem_pairsFrom_of_partnerAfter {inner below : List (Nat × Char)} {i : Nat} {bracket : Char}
    {inside after : List Char}
    (h : pairsFrom (inner ++ (i, bracket) :: below) start text = .ok found)
    (hp : partnerAfter inner.length text = some (inside, after)) :
    (i, start + inside.length) ∈ found := by
  induction text generalizing inner start found inside with
  | nil => cases hp
  | cons d text ih =>
    rcases pairsFrom_cons_ok h with
      ⟨ho, hnext⟩ | ⟨hd, j, below', later, hstack, hnext, rfl⟩ | ⟨ho, hd, hnext⟩
    · rw [partnerAfter_opening ho] at hp
      obtain ⟨inside, hinside, rfl⟩ := exists_of_map_cons hp
      have hmem := @ih (start + 1) found ((start, d) :: inner) inside hnext hinside
      rwa [List.length_cons, ← Nat.add_assoc, Nat.add_right_comm]
    · cases inner with
      | nil =>
        rw [List.length_nil, partnerAfter_closing_zero hd] at hp
        cases hp
        cases hstack
        exact List.mem_cons_self ..
      | cons innermost inner =>
        rw [List.length_cons, partnerAfter_closing_succ hd] at hp
        obtain ⟨inside, hinside, rfl⟩ := exists_of_map_cons hp
        cases hstack
        have hmem := ih hnext hinside
        rw [List.length_cons, ← Nat.add_assoc, Nat.add_right_comm]
        exact List.mem_cons_of_mem _ hmem
    · rw [partnerAfter_plain ho hd] at hp
      obtain ⟨inside, hinside, rfl⟩ := exists_of_map_cons hp
      have hmem := ih hnext hinside
      rwa [List.length_cons, ← Nat.add_assoc, Nat.add_right_comm]

/-- An opening bracket in a text that passes the check: the text between it and its partner, the
partner, and the pair that the check makes of them. -/
theorem exists_partner_of_pairs {before : List Char} {bracket : Char}
    (h : pairs (before ++ bracket :: rest) = .ok found) (ho : isOpening bracket = true) :
    ∃ inside closing after, rest = inside ++ closing :: after ∧
      partnerAfter 0 rest = some (inside, after) ∧ isClosing closing = true ∧
      opener closing = bracket ∧ check inside = .ok () ∧
      (before.length, before.length + 1 + inside.length) ∈ found := by
  obtain ⟨pending, later, hlater, hsub⟩ := exists_pairsFrom_append h
  rw [Nat.zero_add] at hlater
  rcases pairsFrom_cons_ok hlater with ⟨-, hopened⟩ | ⟨hc, -⟩ | ⟨hplain, -⟩
  · have hcheck : checkFrom ([] ++ bracket :: pending.map Prod.snd) rest = .ok () := by
      have herase := erase_pairsFrom ((before.length, bracket) :: pending) (before.length + 1) rest
      rw [hopened] at herase
      exact herase.symm
    obtain ⟨inside, after, hp⟩ := exists_partner hcheck
    obtain ⟨closing, hclosing, hopener, hrest, hinside, -⟩ := checkFrom_of_partnerAfter hcheck hp
    have hmem := @mem_pairsFrom_of_partnerAfter _ _ _ [] pending _ _ _ _ hopened hp
    exact ⟨inside, closing, after, hrest, hp, hclosing, hopener, hinside, hsub hmem⟩
  · exact absurd ho (by simp [isOpening_of_isClosing hc])
  · exact absurd ho (by simp [hplain])

theorem closeOf_append {before : List Char} (bracket : Char) (rest : List Char) :
    closeOf (before ++ bracket :: rest) before.length =
      (partnerAfter 0 rest).map fun p => before.length + 1 + p.1.length := by
  have hdrop : (before ++ bracket :: rest).drop (before.length + 1) = rest := by
    rw [List.append_cons, List.drop_left' (by rw [List.length_append]; rfl)]
  rw [closeOf, hdrop]

/-- **Counting finds the bracket that the check pairs.** For every text that passes the check of its
brackets and every opening bracket in it, the search for its partner gives the position of the one
closing bracket that the check takes it from the stack for; that one is of its kind, and the text
between the two passes the check on its own. The check with positions comes to the same as the one
without. -/
theorem closeOf_pairs (text : List Char) :
    (pairs text).map (fun _ => ()) = check text ∧
      (check text = .ok () → ∃ found, pairs text = .ok found ∧
        ∀ before bracket rest, text = before ++ bracket :: rest → isOpening bracket = true →
          ∃ inside closing after, rest = inside ++ closing :: after ∧
            closeOf text before.length = some (before.length + 1 + inside.length) ∧
            (∀ j, (before.length, j) ∈ found ↔ j = before.length + 1 + inside.length) ∧
            isClosing closing = true ∧ opener closing = bracket ∧ check inside = .ok ()) := by
  have herase : (pairs text).map (fun _ => ()) = check text := erase_pairsFrom [] 0 text
  refine ⟨herase, fun hcheck => ?_⟩
  rw [hcheck] at herase
  obtain ⟨found, hfound, -⟩ := Except.exists_of_map_ok herase
  have hnodup := (@nodup_pairsFrom [] 0 text found List.nodup_nil nofun hfound).1
  refine ⟨found, hfound, ?_⟩
  rintro before bracket rest rfl ho
  obtain ⟨inside, closing, after, hrest, hp, hclosing, hopener, hinside, hmem⟩ :=
    exists_partner_of_pairs hfound ho
  refine ⟨inside, closing, after, hrest, ?_, fun j => ⟨fun hj => ?_, ?_⟩, hclosing, hopener,
    hinside⟩
  · rw [closeOf_append, hp]
    rfl
  · exact (Prod.mk.inj (List.inj_on_of_nodup_map hnodup hj hmem rfl)).2
  · rintro rfl
    exact hmem

/-- The partner of a square bracket between parentheses, past the angle brackets inside. -/
theorem closeOf_pairs_nested :
    let text := "(a:[b<c>])".toList
    check text = .ok () ∧ isOpening '[' = true ∧ closeOf text 3 = some 8 ∧
      pairs text = .ok [(5, 7), (3, 8), (0, 9)] ∧ check "b<c>".toList = .ok () := by
  intro text
  have hcheck : check text = .ok () := by decide
  have ho : isOpening '[' = true := by decide
  have hpairs : pairs text = .ok [(5, 7), (3, 8), (0, 9)] := by rfl
  obtain ⟨found, hfound, hall⟩ := (closeOf_pairs text).2 hcheck
  cases hfound.symm.trans hpairs
  obtain ⟨inside, closing, after, hrest, hclose, hpair, -, -, hinside⟩ :=
    hall "(a:".toList '[' "b<c>])".toList rfl ho
  -- the pair that the check finds tells how long the text between the brackets is
  have hlength : inside.length = 4 := by
    have hj : 8 = 3 + 1 + inside.length := (hpair 8).1 (by decide)
    omega
  have hbetween : "b<c>".toList = inside := by
    have htake := congrArg (List.take 4) hrest
    rwa [List.take_left' hlength] at htake
  rw [hlength] at hclose
  rw [← hbetween] at hinside
  exact ⟨hcheck, ho, hclose, hpairs, hinside⟩

end TypedSheets.Bracket
