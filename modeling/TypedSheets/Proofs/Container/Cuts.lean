import TypedSheets.Proofs.Container.Elements

/-!
# Where containers are split

The depth of parentheses runs through a whole container text and may fall below zero. So whether a
text is split at a mark depends on the pairs of parentheses around the mark, but also on the
parentheses left over before it: a closing parenthesis that closes nothing takes away the protection
of a pair behind it.

## Main definitions

* `Separation.boundaries` — the places between pieces.
* `cutPlaces` — the places at which a container text is split.

## Main results

* `Separation.mem_boundaries_iff` — a text is split at the marks whose depth separates.
* `cut_iff_left_over` — a container text is split at a mark if and only if at least as many closing
  parentheses are left over before it as there are pairs around it and opening ones left over.
-/

namespace TypedSheets

namespace Separation

/-- The places between pieces, the first of which starts at `start`. -/
def boundaries (start : Nat) : List (List Char) → List Nat
  | [] => []
  | [_] => []
  | piece :: next :: pieces =>
    (start + piece.length) :: boundaries (start + piece.length + 1) (next :: pieces)

/-- What stands between the places where a text is cut, which starts at `start`. -/
def between (cut : Nat → Bool) (start : Nat) : List Char → List (List Char)
  | [] => [[]]
  | c :: rest =>
    if cut start then [] :: between cut (start + 1) rest
    else (between cut (start + 1) rest).modifyHead (c :: ·)

variable {S : Separation} {d : Int}

theorem exists_pieces (d : Int) (text : List Char) :
    ∃ piece pieces, S.pieces d text = piece :: pieces := by
  induction text generalizing d with
  | nil => exact ⟨_, _, rfl⟩
  | cons c text ih =>
    rw [pieces]
    split_ifs
    · exact ⟨_, _, rfl⟩
    · obtain ⟨piece, pieces, h⟩ := ih (d + Text.depth [c])
      rw [h]
      exact ⟨_, _, rfl⟩

/-- A character more in front of the first piece. -/
theorem boundaries_modifyHead (start : Nat) (c : Char) (pieces : List (List Char)) :
    boundaries start (pieces.modifyHead (c :: ·)) = boundaries (start + 1) pieces := by
  match pieces with
  | [] => rfl
  | [_] => rfl
  | piece :: next :: pieces =>
    rw [List.modifyHead_cons, boundaries, boundaries, List.length_cons, Nat.add_right_comm start 1,
      ← Nat.add_assoc start]

/-- **A text is split at the marks whose depth separates**, and nowhere else. -/
theorem mem_boundaries_iff (start : Nat) (d : Int) (text : List Char) (i : Nat) :
    i ∈ boundaries start (S.pieces d text) ↔ ∃ k c, i = start + k ∧ text[k]? = some c ∧
      S.cuts c (d + Text.depth (text.take k)) = true := by
  induction text generalizing start d with
  | nil => simp [pieces, boundaries]
  | cons x rest ih =>
    have hsplit : (∃ k c, i = start + k ∧ (x :: rest)[k]? = some c ∧
          S.cuts c (d + Text.depth ((x :: rest).take k)) = true) ↔
        (i = start ∧ S.cuts x d = true) ∨ i ∈ boundaries (start + 1)
          (S.pieces (d + Text.depth [x]) rest) := by
      rw [ih, ← Nat.or_exists_add_one]
      refine or_congr (by simp) (exists_congr fun k => exists_congr fun c => ?_)
      rw [Nat.add_right_comm, Nat.add_assoc, List.getElem?_cons_succ, List.take_succ_cons,
        ← List.singleton_append, Text.depth_append, ← Int.add_assoc]
    rw [hsplit, pieces]
    split_ifs with hcuts
    · obtain ⟨piece, later, hlater⟩ := exists_pieces (S := S) d rest
      rw [depth_of_cuts hcuts, Int.add_zero, hlater, boundaries, List.mem_cons, and_iff_left hcuts]
      rfl
    · rw [boundaries_modifyHead, or_iff_right fun h => hcuts h.2]

/-- The pieces of a text stand between the places where it is split. -/
theorem pieces_eq_between {cut : Nat → Bool} {start : Nat} {d : Int} {text : List Char}
    (h : ∀ k c, text[k]? = some c → cut (start + k) = S.cuts c (d + Text.depth (text.take k))) :
    S.pieces d text = between cut start text := by
  induction text generalizing start d with
  | nil => rfl
  | cons c rest ih =>
    have hfirst : cut start = S.cuts c d := by simpa using h 0 c rfl
    have hrest : S.pieces (d + Text.depth [c]) rest = between cut (start + 1) rest :=
      ih fun k x hx => by
        rw [Int.add_assoc, ← Text.depth_append, Nat.add_right_comm]
        exact h (k + 1) x hx
    rw [pieces, between, hfirst, ← hrest]
    split_ifs with hcuts
    · rw [depth_of_cuts hcuts, Int.add_zero]
    · rfl

end Separation

/-- The places at which a container text is split: behind each of its pieces but the last. -/
def cutPlaces (text : List Char) : List Nat :=
  Separation.boundaries 0 (splitPieces [] 0 text)

/-- Whether a mark between elements stands at a place. -/
def isMarkAt (text : List Char) (i : Nat) : Bool :=
  text[i]?.any containerMarks.marks

/-- What is left between the places at which a container text is split are its elements. -/
theorem splitElements_eq_between (text : List Char) :
    splitElements text =
      ((Separation.between (· ∈ cutPlaces text) 0 text).map Text.trim).filter (!·.isEmpty) := by
  have hpieces : containerMarks.pieces 0 text = Separation.between (· ∈ cutPlaces text) 0 text := by
    refine Separation.pieces_eq_between fun k c hc => ?_
    rw [Bool.eq_iff_iff, decide_eq_true_eq, cutPlaces, splitPieces_eq,
      Separation.mem_boundaries_iff]
    simp [hc]
  rw [splitElements, splitPieces_eq, hpieces]

theorem mem_cutPlaces_iff (text : List Char) (i : Nat) :
    i ∈ cutPlaces text ↔ isMarkAt text i = true ∧
      Text.around text i + Text.unclosedBefore text i ≤ Text.unopenedBefore text i := by
  rw [cutPlaces, splitPieces_eq, Separation.mem_boundaries_iff, isMarkAt]
  simp only [Nat.zero_add, Int.zero_add, exists_and_left, exists_eq_left']
  cases hc : text[i]? with
  | none => simp
  | some c =>
    simp only [Option.any_some, Option.some.injEq, exists_eq_left', Separation.cuts_iff]
    refine and_congr_right fun hmark => ?_
    show decide (_ ≤ _) = true ↔ _
    rw [decide_eq_true_eq, Text.depth_take (Separation.getElem?_ne_close hc hmark)]
    omega

/-- **Where a container text is split.** Its elements are what is left between the places where it
is cut. It is cut at a mark if and only if at least as many closing parentheses are left over before
the mark as there are pairs around it and opening parentheses left over before it. So it is cut at
every mark in no pair with no opening parenthesis left over before it; and a mark in a pair is
protected unless a closing parenthesis is left over before it. -/
theorem cut_iff_left_over (text : List Char) (i : Nat) :
    splitElements text =
        ((Separation.between (· ∈ cutPlaces text) 0 text).map Text.trim).filter (!·.isEmpty) ∧
      (i ∈ cutPlaces text ↔ isMarkAt text i = true ∧
        Text.around text i + Text.unclosedBefore text i ≤ Text.unopenedBefore text i) ∧
      (isMarkAt text i = true → ¬ Text.Within text i →
        (∀ j ∈ (Text.pairing text).unclosed, i ≤ j) → i ∈ cutPlaces text) ∧
      (Text.Within text i → i ∈ cutPlaces text → ∃ j ∈ (Text.pairing text).unopened, j < i) := by
  refine ⟨splitElements_eq_between text, mem_cutPlaces_iff text i, ?_, ?_⟩
  · intro hmark hwithin hunclosed
    rw [Text.within_iff_around, Nat.not_lt, Nat.le_zero] at hwithin
    rw [mem_cutPlaces_iff, hwithin, Text.unclosedBefore_eq_zero_iff.2 hunclosed]
    exact ⟨hmark, Nat.zero_le _⟩
  · intro hwithin hcut
    have haround := Text.within_iff_around.1 hwithin
    have hle := ((mem_cutPlaces_iff text i).1 hcut).2
    exact Text.unopenedBefore_pos_iff.1 (by omega)

/-- A text is cut at a mark behind a closing parenthesis that closes nothing, and inside a pair
behind that. -/
theorem cut_left_over :
    let text := "a)&(b|(c&d))|(e".toList
    splitElements text = ["a)".toList, "(b".toList, "(c&d))".toList, "(e".toList] ∧
      (isMarkAt text 12 = true ∧ ¬ Text.Within text 12 ∧
        (∀ j ∈ (Text.pairing text).unclosed, 12 ≤ j) ∧ 12 ∈ cutPlaces text) ∧
      Text.Within text 5 ∧ 5 ∈ cutPlaces text ∧ ∃ j ∈ (Text.pairing text).unopened, j < 5 := by
  intro text
  have hmark : isMarkAt text 12 = true := by decide +kernel
  have hoff : ¬ Text.Within text 12 := by decide +kernel
  have hclosed : ∀ j ∈ (Text.pairing text).unclosed, 12 ≤ j := by decide +kernel
  have hwithin : Text.Within text 5 := by decide +kernel
  have hcut : 5 ∈ cutPlaces text := by decide +kernel
  obtain ⟨helements, -, houtside, -⟩ := cut_iff_left_over text 12
  obtain ⟨-, -, -, hinside⟩ := cut_iff_left_over text 5
  refine ⟨helements.trans (by decide +kernel), ⟨hmark, hoff, hclosed, houtside hmark hoff hclosed⟩,
    hwithin, hcut, hinside hwithin hcut⟩

/-- A pair is split at a mark inside it, behind a closing parenthesis that closes nothing. -/
theorem pair_split_inside :
    let text := ")(a|b)".toList
    (1, 5) ∈ (Text.pairing text).pairs ∧ isMarkAt text 3 = true ∧ 3 ∈ cutPlaces text ∧
      splitElements text = [")(a".toList, "b)".toList] := by
  decide +kernel

end TypedSheets
