import TypedSheets.Proofs.Text.Words

/-!
# Parentheses

The parentheses of a text, balanced or not: how many of them are open at a place, and which of them
belong together. A closing parenthesis is paired with the nearest opening one before it that is not
paired yet. In a text that is not balanced, parentheses of either kind are left over.

## Main definitions

* `Text.depth` — how many parentheses more a text opens than it closes.
* `Text.Balanced` — a text that closes what it opens, and closes nothing else.
* `Text.Pairing`, `Text.pairing` — the pairs of parentheses, and the parentheses that are left over.
* `Text.Within` — a place between the two parentheses of a pair.
* `Text.around`, `Text.unclosedBefore`, `Text.unopenedBefore` — the pairs around a place and the
  parentheses left over before it, counted.

## Main results

* `Text.depth_take` — the depth at a place, by the pairs around it and what is left over before it.
* `Text.balanced_iff_pairing` — a text is balanced if and only if no parentheses are left over.
* `Text.mem_pairs_iff` — two parentheses are a pair if and only if what they enclose is balanced.
-/

namespace TypedSheets.Text

/-! ### Depth -/

/-- How many parentheses more a text opens than it closes. -/
def depth (text : List Char) : Int :=
  (text.count '(' : Int) - text.count ')'

@[simp] theorem depth_nil : depth [] = 0 := rfl

@[simp] theorem depth_append (a b : List Char) : depth (a ++ b) = depth a + depth b := by
  simp only [depth, List.count_append]
  omega

@[simp] theorem depth_cons_open (text : List Char) : depth ('(' :: text) = depth text + 1 := by
  simp only [depth, List.count_cons_self, List.count_cons_of_ne (show '(' ≠ ')' by decide)]
  omega

@[simp] theorem depth_cons_close (text : List Char) : depth (')' :: text) = depth text - 1 := by
  simp only [depth, List.count_cons_self, List.count_cons_of_ne (show ')' ≠ '(' by decide)]
  omega

theorem depth_cons_of_ne {c : Char} (hopen : c ≠ '(') (hclose : c ≠ ')') (text : List Char) :
    depth (c :: text) = depth text := by
  rw [depth, depth, List.count_cons_of_ne hopen, List.count_cons_of_ne hclose]

theorem depth_eq_zero {text : List Char} (h : ∀ c ∈ text, c ≠ '(' ∧ c ≠ ')') : depth text = 0 := by
  rw [depth, List.count_eq_zero.2 fun hmem => (h _ hmem).1 rfl,
    List.count_eq_zero.2 fun hmem => (h _ hmem).2 rfl]
  rfl

/-- A blank is no parenthesis. -/
theorem ne_of_isBlank {c : Char} (h : isBlank c = true) : c ≠ '(' ∧ c ≠ ')' := by
  constructor <;> rintro rfl <;> exact absurd h (by decide)

theorem depth_of_isBlank {c : Char} (h : isBlank c = true) : depth [c] = 0 :=
  depth_cons_of_ne (ne_of_isBlank h).1 (ne_of_isBlank h).2 []

/-- Trimming takes off no parentheses. -/
@[simp] theorem depth_trim (text : List Char) : depth (trim text) = depth text := by
  obtain ⟨before, after, hbefore, hafter, heq⟩ := exists_blanks_around text
  conv_rhs => rw [heq]
  rw [depth_append, depth_append, depth_eq_zero fun c hc => ne_of_isBlank (hbefore c hc),
    depth_eq_zero fun c hc => ne_of_isBlank (hafter c hc)]
  omega

/-! ### Balanced texts -/

/-- A text that closes as many parentheses as it opens, and nowhere more than are open. -/
structure Balanced (text : List Char) : Prop where
  /-- No start of the text closes more than it opens. -/
  nonneg : ∀ before, before <+: text → 0 ≤ depth before
  /-- The whole text closes as many as it opens. -/
  ends : depth text = 0

namespace Balanced

variable {text rest : List Char}

theorem of_plain (h : ∀ c ∈ text, c ≠ '(' ∧ c ≠ ')') : Balanced text where
  nonneg _ hbefore := Int.le_of_eq (depth_eq_zero fun c hc => h c (hbefore.subset hc)).symm
  ends := depth_eq_zero h

/-- A text that ends at depth zero is balanced with what follows it if and only if both are. -/
theorem append_iff (h : depth text = 0) :
    Balanced (text ++ rest) ↔ Balanced text ∧ Balanced rest := by
  constructor
  · rintro ⟨hnonneg, hends⟩
    refine ⟨⟨fun before hbefore => hnonneg before (hbefore.trans (List.prefix_append _ _)), h⟩,
      fun before hbefore => ?_, ?_⟩
    · have := hnonneg (text ++ before) ((List.prefix_append_right_inj _).2 hbefore)
      rwa [depth_append, h, Int.zero_add] at this
    · rwa [depth_append, h, Int.zero_add] at hends
  · rintro ⟨htext, hrest⟩
    refine ⟨fun before hbefore => ?_, by rw [depth_append, h, hrest.ends]; rfl⟩
    rcases List.prefix_or_prefix_of_prefix hbefore (List.prefix_append text rest) with h' | ⟨b, rfl⟩
    · exact htext.nonneg before h'
    · rw [depth_append, h, Int.zero_add]
      exact hrest.nonneg b ((List.prefix_append_right_inj _).1 hbefore)

theorem trim_iff : Balanced (trim text) ↔ Balanced text := by
  obtain ⟨before, after, hbefore, hafter, heq⟩ := exists_blanks_around text
  have hstart := of_plain fun c hc => ne_of_isBlank (hbefore c hc)
  have hend := of_plain fun c hc => ne_of_isBlank (hafter c hc)
  conv_rhs => rw [heq, List.append_assoc, append_iff hstart.ends]
  refine ⟨fun h => ⟨hstart, (append_iff h.ends).2 ⟨h, hend⟩⟩, fun ⟨_, h⟩ => ?_⟩
  have hdepth := h.ends
  rw [depth_append, hend.ends, Int.add_zero] at hdepth
  exact ((append_iff hdepth).1 h).1

end Balanced

/-! ### Pairs -/

/-- Which parentheses of a text belong together, by their positions. -/
structure Pairing where
  /-- The pairs of an opening parenthesis and the one that closes it. -/
  pairs : List (Nat × Nat)
  /-- The opening parentheses that nothing closes. -/
  unclosed : List Nat
  /-- The closing parentheses that close nothing. -/
  unopened : List Nat

namespace Pairing

/-- One pair more. -/
def withPair (p : Nat × Nat) (later : Pairing) : Pairing :=
  { later with pairs := p :: later.pairs }

/-- One closing parenthesis more that closes nothing. -/
def withUnopened (i : Nat) (later : Pairing) : Pairing :=
  { later with unopened := i :: later.unopened }

variable (p : Nat × Nat) (i : Nat) (later : Pairing)

@[simp] theorem pairs_withPair : (later.withPair p).pairs = p :: later.pairs := rfl

@[simp] theorem unclosed_withPair : (later.withPair p).unclosed = later.unclosed := rfl

@[simp] theorem unopened_withPair : (later.withPair p).unopened = later.unopened := rfl

@[simp] theorem pairs_withUnopened : (later.withUnopened i).pairs = later.pairs := rfl

@[simp] theorem unclosed_withUnopened : (later.withUnopened i).unclosed = later.unclosed := rfl

@[simp] theorem unopened_withUnopened :
    (later.withUnopened i).unopened = i :: later.unopened := rfl

end Pairing

/-- The parentheses from `start` on, where those at `pending` are open, the nearest first. -/
def pairFrom (pending : List Nat) (start : Nat) : List Char → Pairing
  | [] => ⟨[], pending, []⟩
  | c :: rest =>
    if c = '(' then pairFrom (start :: pending) (start + 1) rest
    else if c = ')' then
      match pending with
      | [] => (pairFrom [] (start + 1) rest).withUnopened start
      | nearest :: pending => (pairFrom pending (start + 1) rest).withPair (nearest, start)
    else pairFrom pending (start + 1) rest

/-- The parentheses of a text: each closing one is paired with the nearest opening one before it
that is not paired yet. -/
def pairing (text : List Char) : Pairing :=
  pairFrom [] 0 text

/-- A place between the two parentheses of a pair. -/
def Within (text : List Char) (i : Nat) : Prop :=
  ∃ p ∈ (pairing text).pairs, p.1 < i ∧ i < p.2

instance (text : List Char) (i : Nat) : Decidable (Within text i) :=
  inferInstanceAs (Decidable (∃ p ∈ _, _))

/-- How many pairs of parentheses are around a place. -/
def around (text : List Char) (i : Nat) : Nat :=
  (pairing text).pairs.countP fun p => p.1 < i && i < p.2

/-- How many opening parentheses before a place are never closed. -/
def unclosedBefore (text : List Char) (i : Nat) : Nat :=
  (pairing text).unclosed.countP (· < i)

/-- How many closing parentheses before a place close nothing. -/
def unopenedBefore (text : List Char) (i : Nat) : Nat :=
  (pairing text).unopened.countP (· < i)

theorem within_iff_around {text : List Char} {i : Nat} : Within text i ↔ 0 < around text i := by
  simp [Within, around, List.countP_pos_iff]

theorem unclosedBefore_eq_zero_iff {text : List Char} {i : Nat} :
    unclosedBefore text i = 0 ↔ ∀ j ∈ (pairing text).unclosed, i ≤ j := by
  simp [unclosedBefore, List.countP_eq_zero]

theorem unopenedBefore_pos_iff {text : List Char} {i : Nat} :
    0 < unopenedBefore text i ↔ ∃ j ∈ (pairing text).unopened, j < i := by
  simp [unopenedBefore, List.countP_pos_iff]

/-! ### Counting parentheses -/

section Counting

variable (pending : List Nat) (start m : Nat) (text : List Char)

theorem count_take_cons (c d : Char) :
    ((d :: text).take (m - start)).count c =
      (if start < m ∧ d = c then 1 else 0) + (text.take (m - (start + 1))).count c := by
  by_cases h : start < m
  · rw [show m - start = (m - (start + 1)) + 1 by omega, List.take_succ_cons, List.count_cons]
    simp only [h, true_and, beq_iff_eq]
    omega
  · rw [show m - start = 0 by omega, show m - (start + 1) = 0 by omega]
    simp [h]

/-- Every opening parenthesis is in a pair or left over, and comes from the text or was open. -/
theorem opened_pairFrom :
    (pairFrom pending start text).pairs.countP (·.1 < m) +
        (pairFrom pending start text).unclosed.countP (· < m) =
      pending.countP (· < m) + (text.take (m - start)).count '(' := by
  fun_induction pairFrom pending start text with
  | case1 => simp
  | case2 pending start rest ih =>
    rw [ih, count_take_cons, List.countP_cons]
    simp only [and_true, decide_eq_true_eq]
    omega
  | case3 start rest _ ih =>
    rw [count_take_cons, if_neg (by simp), Nat.zero_add]
    exact ih
  | case4 start rest _ nearest pending ih =>
    rw [Pairing.pairs_withPair, Pairing.unclosed_withPair, count_take_cons, if_neg (by simp),
      Nat.zero_add, List.countP_cons, List.countP_cons]
    dsimp only
    omega
  | case5 pending start c rest hopen hclose ih =>
    rw [count_take_cons, if_neg (by simp [hopen]), Nat.zero_add]
    exact ih

/-- Every closing parenthesis is in a pair or left over. -/
theorem closed_pairFrom :
    (pairFrom pending start text).pairs.countP (·.2 < m) +
        (pairFrom pending start text).unopened.countP (· < m) =
      (text.take (m - start)).count ')' := by
  fun_induction pairFrom pending start text with
  | case1 => simp
  | case2 pending start rest ih =>
    rw [count_take_cons, if_neg (by simp), Nat.zero_add]
    exact ih
  | case3 start rest _ ih =>
    rw [Pairing.pairs_withUnopened, Pairing.unopened_withUnopened, count_take_cons,
      List.countP_cons]
    simp only [and_true, decide_eq_true_eq]
    omega
  | case4 start rest _ nearest pending ih =>
    rw [Pairing.pairs_withPair, Pairing.unopened_withPair, count_take_cons, List.countP_cons]
    simp only [and_true, decide_eq_true_eq]
    omega
  | case5 pending start c rest hopen hclose ih =>
    rw [count_take_cons, if_neg (by simp [hclose]), Nat.zero_add]
    exact ih

end Counting

/-- A pair opens before it closes, and closes with a parenthesis of the text. -/
theorem mem_pairFrom {pending : List Nat} {start : Nat} {text : List Char} {p : Nat × Nat}
    (hpending : ∀ j ∈ pending, j < start) (h : p ∈ (pairFrom pending start text).pairs) :
    p.1 < p.2 ∧ start ≤ p.2 ∧ text[p.2 - start]? = some ')' := by
  have hbehind {c : Char} {rest : List Char} {start : Nat} (h : p.1 < p.2 ∧ start + 1 ≤ p.2 ∧
      rest[p.2 - (start + 1)]? = some ')') :
      p.1 < p.2 ∧ start ≤ p.2 ∧ (c :: rest)[p.2 - start]? = some ')' := by
    obtain ⟨hlt, hle, hget⟩ := h
    refine ⟨hlt, by omega, ?_⟩
    rwa [show p.2 - start = (p.2 - (start + 1)) + 1 by omega, List.getElem?_cons_succ]
  have hlater {pending : List Nat} {start : Nat} (h : ∀ j ∈ pending, j < start) :
      ∀ j ∈ pending, j < start + 1 := fun j hj => Nat.lt_succ_of_lt (h j hj)
  fun_induction pairFrom pending start text with
  | case1 => cases h
  | case2 pending start rest ih =>
    exact hbehind (ih (List.forall_mem_cons.2 ⟨Nat.lt_succ_self _, hlater hpending⟩) h)
  | case3 start rest _ ih => exact hbehind (ih (hlater hpending) h)
  | case4 start rest _ nearest pending ih =>
    obtain ⟨hnearest, hpending⟩ := List.forall_mem_cons.1 hpending
    rcases List.mem_cons.1 h with rfl | h
    · exact ⟨hnearest, Nat.le_refl _, by simp⟩
    · exact hbehind (ih (hlater hpending) h)
  | case5 pending start c rest hopen hclose ih => exact hbehind (ih (hlater hpending) h)

/-- Pairs that start before a place are around it or end before it. -/
theorem countP_around {pairs : List (Nat × Nat)} {i : Nat}
    (h : ∀ p ∈ pairs, p.1 < p.2 ∧ p.2 ≠ i) :
    pairs.countP (·.1 < i) =
      pairs.countP (fun p => p.1 < i && i < p.2) + pairs.countP (·.2 < i) := by
  induction pairs with
  | nil => rfl
  | cons p pairs ih =>
    obtain ⟨hp, hpairs⟩ := List.forall_mem_cons.1 h
    rw [List.countP_cons, List.countP_cons, List.countP_cons, ih hpairs]
    simp only [Bool.and_eq_true, decide_eq_true_eq]
    split_ifs <;> omega

/-- **The depth in front of a character**, by what the parentheses before it belong to. -/
theorem depth_take {text : List Char} {i : Nat} (h : text[i]? ≠ some ')') :
    depth (text.take i) =
      (around text i + unclosedBefore text i : Int) - unopenedBefore text i := by
  have hopened := opened_pairFrom [] 0 i text
  have hclosed := closed_pairFrom [] 0 i text
  have haround : (pairFrom [] 0 text).pairs.countP (·.1 < i) =
      around text i + (pairFrom [] 0 text).pairs.countP (·.2 < i) := by
    refine countP_around fun p hp => ?_
    obtain ⟨hlt, -, hget⟩ := mem_pairFrom (by simp) hp
    exact ⟨hlt, by rintro rfl; exact h hget⟩
  rw [List.countP_nil, Nat.zero_add, Nat.sub_zero] at hopened
  rw [Nat.sub_zero] at hclosed
  rw [depth, ← hopened, ← hclosed, haround]
  simp only [unclosedBefore, unopenedBefore, pairing]
  omega

/-! ### Parentheses left over -/

/-- What holds of every start of a text holds of the empty one and of those behind its first
character. -/
theorem forall_prefix_cons {P : List Char → Prop} (c : Char) (rest : List Char) :
    (∀ before, before <+: c :: rest → P before) ↔
      P [] ∧ ∀ before, before <+: rest → P (c :: before) := by
  refine ⟨fun h => ⟨h [] List.nil_prefix,
    fun before hbefore => h _ (List.cons_prefix_cons.2 ⟨rfl, hbefore⟩)⟩, fun ⟨hnil, h⟩ => ?_⟩
  intro before hbefore
  rcases List.prefix_cons_iff.1 hbefore with rfl | ⟨b, rfl, hb⟩
  · exact hnil
  · exact h b hb

/-- Nothing closes more than is open if and only if no closing parenthesis is left over. -/
theorem unopened_eq_nil_iff (pending : List Nat) (start : Nat) (text : List Char) :
    (pairFrom pending start text).unopened = [] ↔
      ∀ before, before <+: text → 0 ≤ (pending.length : Int) + depth before := by
  fun_induction pairFrom pending start text with
  | case1 pending start => simp
  | case2 pending start rest ih =>
    rw [forall_prefix_cons, and_iff_right (by simp)]
    refine ih.trans (forall₂_congr fun before _ => ?_)
    rw [depth_cons_open, List.length_cons]
    omega
  | case3 start rest _ ih =>
    refine iff_of_false (List.cons_ne_nil _ _) fun h => ?_
    exact absurd (h [')'] (by simp)) (by decide)
  | case4 start rest _ nearest pending ih =>
    rw [forall_prefix_cons, and_iff_right (by simp; omega)]
    refine ih.trans (forall₂_congr fun before _ => ?_)
    rw [depth_cons_close, List.length_cons]
    omega
  | case5 pending start c rest hopen hclose ih =>
    rw [forall_prefix_cons, and_iff_right (by simp)]
    refine ih.trans (forall₂_congr fun before _ => ?_)
    rw [depth_cons_of_ne hopen hclose]

/-- What is open behind a text was open or is opened in it, and is not closed in it. -/
theorem length_unclosed (pending : List Nat) (start : Nat) (text : List Char) :
    ((pairFrom pending start text).unclosed.length : Int) =
      pending.length + depth text + (pairFrom pending start text).unopened.length := by
  fun_induction pairFrom pending start text with
  | case1 => simp
  | case2 pending start rest ih =>
    rw [ih, depth_cons_open, List.length_cons]
    omega
  | case3 start rest _ ih =>
    rw [Pairing.unclosed_withUnopened, ih, depth_cons_close, Pairing.unopened_withUnopened,
      List.length_cons]
    omega
  | case4 start rest _ nearest pending ih =>
    rw [Pairing.unclosed_withPair, ih, depth_cons_close, Pairing.unopened_withPair,
      List.length_cons]
    omega
  | case5 pending start c rest hopen hclose ih => rw [ih, depth_cons_of_ne hopen hclose]

/-- A text is balanced if and only if no parentheses are left over, wherever it starts. -/
theorem balanced_iff_pairFrom (start : Nat) (text : List Char) :
    Balanced text ↔
      (pairFrom [] start text).unclosed = [] ∧ (pairFrom [] start text).unopened = [] := by
  have hunopened : (pairFrom [] start text).unopened = [] ↔
      ∀ before, before <+: text → 0 ≤ depth before := by
    simpa using unopened_eq_nil_iff [] start text
  have hlength := length_unclosed [] start text
  rw [← List.length_eq_zero_iff (l := (pairFrom [] start text).unclosed)]
  constructor
  · rintro ⟨hnonneg, hends⟩
    have hnil := hunopened.2 hnonneg
    rw [hends, hnil] at hlength
    exact ⟨by simpa using hlength, hnil⟩
  · rintro ⟨hunclosed, hnil⟩
    rw [hunclosed, hnil] at hlength
    exact ⟨hunopened.1 hnil, by simpa using hlength.symm⟩

/-- **A text is balanced if and only if no parentheses are left over.** -/
theorem balanced_iff_pairing (text : List Char) :
    Balanced text ↔ (pairing text).unclosed = [] ∧ (pairing text).unopened = [] :=
  balanced_iff_pairFrom 0 text

instance (text : List Char) : Decidable (Balanced text) :=
  decidable_of_iff _ (balanced_iff_pairing text).symm

/-- In a balanced text the depth in front of a character is the number of pairs around it. -/
theorem Balanced.depth_take {text : List Char} {i : Nat} (h : Balanced text)
    (hi : text[i]? ≠ some ')') : depth (text.take i) = around text i := by
  obtain ⟨hunclosed, hunopened⟩ := (balanced_iff_pairing text).1 h
  rw [Text.depth_take hi, unclosedBefore, unopenedBefore, hunclosed, hunopened]
  simp

/-! ### What a pair encloses -/

/-- What follows a text is paired with what is open behind the text. -/
theorem pairFrom_append (pending : List Nat) (start : Nat) (text rest : List Char) :
    (pairFrom pending start (text ++ rest)).pairs =
        (pairFrom pending start text).pairs ++
          (pairFrom (pairFrom pending start text).unclosed (start + text.length) rest).pairs ∧
      (pairFrom pending start (text ++ rest)).unclosed =
        (pairFrom (pairFrom pending start text).unclosed (start + text.length) rest).unclosed := by
  induction text generalizing pending start with
  | nil => exact ⟨rfl, rfl⟩
  | cons c text ih =>
    rw [List.cons_append, List.length_cons, ← Nat.succ_add_eq_add_succ]
    simp only [pairFrom]
    split_ifs
    · exact ih _ _
    · cases pending with
      | nil => exact ih _ _
      | cons nearest pending => exact (ih _ _).imp_left (congrArg _)
    · exact ih _ _

/-- Parentheses that were open further out are closed by what closes nothing in the text itself. -/
theorem unclosed_pairFrom_append (pending outer : List Nat) (start : Nat) (text : List Char) :
    (pairFrom (pending ++ outer) start text).unclosed =
      (pairFrom pending start text).unclosed ++
        outer.drop (pairFrom pending start text).unopened.length := by
  induction text generalizing pending outer start with
  | nil => simp [pairFrom]
  | cons c text ih =>
    simp only [pairFrom]
    split_ifs
    · exact ih (start :: pending) outer (start + 1)
    · cases pending with
      | nil =>
        cases outer with
        | nil => simp
        | cons nearest outer =>
          rw [Pairing.unclosed_withUnopened, Pairing.unopened_withUnopened, List.length_cons,
            List.drop_succ_cons]
          exact ih [] outer (start + 1)
      | cons nearest pending => exact ih pending outer (start + 1)
    · exact ih pending outer (start + 1)

/-- What is open behind a text was open, or is opened in it. -/
theorem mem_unclosed {pending : List Nat} {start : Nat} {text : List Char} {j : Nat}
    (h : j ∈ (pairFrom pending start text).unclosed) :
    j ∈ pending ∨ start ≤ j ∧ j < start + text.length := by
  fun_induction pairFrom pending start text with
  | case1 => exact .inl h
  | case2 pending start rest ih =>
    rw [List.length_cons]
    rcases ih h with h | h
    · rcases List.mem_cons.1 h with rfl | h
      · exact .inr (by omega)
      · exact .inl h
    · exact .inr (by omega)
  | case3 start rest _ ih =>
    rw [List.length_cons]
    exact (ih h).imp_right fun h => by omega
  | case4 start rest _ nearest pending ih =>
    rw [List.length_cons]
    exact (ih h).imp (List.mem_cons_of_mem _) fun h => by omega
  | case5 pending start c rest _ _ ih =>
    rw [List.length_cons]
    exact (ih h).imp_right fun h => by omega

/-- A closing parenthesis is paired with the nearest one that is open in front of it. -/
theorem mem_pairs_append_close (text after : List Char) (j : Nat) :
    (j, text.length) ∈ (pairing (text ++ ')' :: after)).pairs ↔
      (pairing text).unclosed.head? = some j := by
  have hbefore : (j, text.length) ∉ (pairFrom [] 0 text).pairs := fun h => by
    obtain ⟨-, -, hget⟩ := mem_pairFrom (by simp) h
    simp at hget
  have hafter {later : List Nat} (h : ∀ k ∈ later, k < text.length + 1) :
      (j, text.length) ∉ (pairFrom later (text.length + 1) after).pairs := fun hmem =>
    absurd (mem_pairFrom h hmem).2.1 (Nat.not_succ_le_self _)
  have hopen : ∀ k ∈ (pairFrom [] 0 text).unclosed, k < text.length + 1 := fun k hk => by
    have := (mem_unclosed hk).resolve_left List.not_mem_nil
    omega
  rw [pairing, (pairFrom_append [] 0 text _).1, List.mem_append, or_iff_right hbefore, Nat.zero_add,
    pairing]
  cases hunclosed : (pairFrom [] 0 text).unclosed with
  | nil => exact iff_of_false (hafter (by simp)) (by simp)
  | cons nearest later =>
    rw [hunclosed] at hopen
    show _ ∈ (nearest, text.length) :: (pairFrom later (text.length + 1) after).pairs ↔ _
    rw [List.mem_cons, or_iff_left (hafter (List.forall_mem_cons.1 hopen).2), List.head?_cons,
      Option.some.injEq, Prod.mk.injEq, and_iff_left rfl, eq_comm]

/-- **Two parentheses are a pair if and only if what they enclose is balanced.** -/
theorem mem_pairs_iff (before inside after : List Char) :
    (before.length, before.length + inside.length + 1) ∈
        (pairing (before ++ '(' :: inside ++ ')' :: after)).pairs ↔
      Balanced inside := by
  have hlength : before.length + inside.length + 1 = (before ++ '(' :: inside).length := by
    rw [List.length_append, List.length_cons, Nat.add_assoc]
  have houter : ∀ k ∈ (pairing before).unclosed, k < before.length := fun k hk => by
    have := (mem_unclosed hk).resolve_left List.not_mem_nil
    omega
  have hopen : (pairing (before ++ '(' :: inside)).unclosed =
      (pairFrom [] (before.length + 1) inside).unclosed ++
        (before.length :: (pairing before).unclosed).drop
          (pairFrom [] (before.length + 1) inside).unopened.length := by
    rw [pairing, (pairFrom_append [] 0 before _).2, Nat.zero_add]
    exact unclosed_pairFrom_append [] (before.length :: (pairing before).unclosed) _ inside
  rw [hlength, mem_pairs_append_close, hopen, balanced_iff_pairFrom (before.length + 1)]
  cases hunclosed : (pairFrom [] (before.length + 1) inside).unclosed with
  | cons nearest later =>
    refine iff_of_false (fun h => ?_) fun h => by cases h.1
    rw [List.cons_append, List.head?_cons, Option.some.injEq] at h
    have hmem : nearest ∈ (pairFrom [] (before.length + 1) inside).unclosed := by simp [hunclosed]
    have := (mem_unclosed hmem).resolve_left List.not_mem_nil
    omega
  | nil =>
    rw [List.nil_append, and_iff_right rfl]
    cases (pairFrom [] (before.length + 1) inside).unopened with
    | nil => simp
    | cons first later =>
      refine iff_of_false (fun h => ?_) (List.cons_ne_nil _ _)
      rw [List.length_cons, List.drop_succ_cons] at h
      have hmem := List.mem_of_mem_drop (List.mem_of_head? h)
      exact absurd (houter _ hmem) (Nat.lt_irrefl _)

end TypedSheets.Text
