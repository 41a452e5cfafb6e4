import TypedSheets.Proofs.Text.Parentheses
import TypedSheets.Proofs.Text.Pieces

/-!
# Splitting outside of parentheses

A text is split at certain marks, but only where the depth of parentheses allows it. Its pieces are
trimmed and the empty ones dropped; what is left are the elements of the text. The depth runs
through the whole text, and so whether an element is split depends on the depth it starts at.

## Main definitions

* `Separation` — marks, and the depths at which they separate.
* `Separation.pieces`, `Separation.elements` — what a text is split into.
* `Separation.Whole` — a text that is not split, from the depth it starts at.
* `Separation.Stays` — elements none of which is split where it stands behind the others.
* `Separation.Joined` — elements with marks between them, and blanks around the marks.
* `Separation.IsElement` — a balanced element with all its marks in parentheses.

## Main results

* `Separation.elements_of_joined` — elements that are not split are found again.
* `Separation.elements_intercalate_elements` — splitting, joining and splitting again.
* `Separation.stays_of_isElement` — balanced elements are not split.
-/

namespace TypedSheets

/-- Marks that separate, and the depths at which they do: outside of parentheses, but not inside
them. -/
structure Separation where
  /-- The marks. -/
  marks : Char → Bool
  /-- The depths at which marks separate. -/
  level : Int → Bool
  marks_open : marks '(' = false
  marks_close : marks ')' = false
  level_zero : level 0 = true
  level_pos : ∀ d, 0 < d → level d = false

namespace Separation

variable (S : Separation)

/-- Whether a text is split at a character in front of which it has a depth. -/
def cuts (c : Char) (d : Int) : Bool :=
  S.marks c && S.level d

/-- The pieces of a text that starts at a depth. -/
def pieces (d : Int) : List Char → List (List Char)
  | [] => [[]]
  | c :: rest =>
    if S.cuts c d then [] :: pieces d rest
    else (pieces (d + Text.depth [c]) rest).modifyHead (c :: ·)

/-- What is left of a piece: its trimmed text, if there is any. -/
def solid (piece : List Char) : List (List Char) :=
  [Text.trim piece].filter (!·.isEmpty)

/-- The elements of a text that starts at a depth: its pieces, trimmed, without the empty ones. -/
def elements (d : Int) (text : List Char) : List (List Char) :=
  ((S.pieces d text).map Text.trim).filter (!·.isEmpty)

/-- A text that is not split if it starts at a depth. -/
def Whole (d : Int) : List Char → Prop
  | [] => True
  | c :: rest => S.cuts c d = false ∧ Whole (d + Text.depth [c]) rest

/-- Elements, the first of which starts at a depth: they are trimmed and not empty, none of them is
split, and between each two of them marks separate. -/
def Stays (d : Int) : List (List Char) → Prop
  | [] => True
  | item :: items =>
    (Text.trim item = item ∧ item ≠ [] ∧ S.Whole d item) ∧
      (items ≠ [] → S.level (d + Text.depth item) = true) ∧ Stays (d + Text.depth item) items

/-- A text is made of elements, with a mark between each two and any blanks around the mark. -/
inductive Joined : List (List Char) → List Char → Prop
  | nil : Joined [] []
  | single (item : List Char) : Joined [item] item
  | cons (item before : List Char) (c : Char) (after : List Char) {items : List (List Char)}
      {text : List Char} (hbefore : ∀ x ∈ before, Text.isBlank x = true) (hmark : S.marks c = true)
      (hafter : ∀ x ∈ after, Text.isBlank x = true) (hitems : items ≠ [])
      (h : Joined items text) : Joined (item :: items) (item ++ before ++ c :: (after ++ text))

/-- A text that may be an element at depth zero: it is trimmed and not empty, its parentheses are
balanced, and all its marks are inside them. -/
structure IsElement (item : List Char) : Prop where
  trimmed : Text.trim item = item
  nonempty : item ≠ []
  balanced : Text.Balanced item
  within : ∀ i c, item[i]? = some c → S.marks c = true → Text.Within item i

variable {S} {d : Int}

/-! ### Texts that are not split -/

theorem cuts_iff {c : Char} : S.cuts c d = true ↔ S.marks c = true ∧ S.level d = true :=
  Bool.and_eq_true_iff

/-- No mark is a parenthesis. -/
theorem ne_of_marks {c : Char} (h : S.marks c = true) : c ≠ '(' ∧ c ≠ ')' := by
  constructor <;> rintro rfl
  · exact absurd (S.marks_open.symm.trans h) (by decide)
  · exact absurd (S.marks_close.symm.trans h) (by decide)

theorem getElem?_ne_close {text : List Char} {i : Nat} {c : Char} (hc : text[i]? = some c)
    (hmark : S.marks c = true) : text[i]? ≠ some ')' := fun h =>
  (ne_of_marks hmark).2 (Option.some.inj (hc.symm.trans h))

theorem depth_of_cuts {c : Char} (h : S.cuts c d = true) : Text.depth [c] = 0 :=
  have ⟨hopen, hclose⟩ := ne_of_marks (cuts_iff.1 h).1
  Text.depth_cons_of_ne hopen hclose []

theorem whole_append {text rest : List Char} :
    S.Whole d (text ++ rest) ↔ S.Whole d text ∧ S.Whole (d + Text.depth text) rest := by
  induction text generalizing d with
  | nil => simp [Whole]
  | cons c text ih =>
    have hdepth : Text.depth (c :: text) = Text.depth [c] + Text.depth text :=
      Text.depth_append [c] text
    rw [List.cons_append, Whole, Whole, ih, hdepth, Int.add_assoc, and_assoc]

/-- A text that is not split is not split without the blanks around it. -/
theorem Whole.trim {text : List Char} (h : S.Whole d text) : S.Whole d (Text.trim text) := by
  obtain ⟨before, after, hbefore, -, heq⟩ := Text.exists_blanks_around text
  rw [heq, List.append_assoc, whole_append, whole_append,
    Text.depth_eq_zero fun c hc => Text.ne_of_isBlank (hbefore c hc), Int.add_zero] at h
  exact h.2.1

/-- A text is not split, or split at a first place. -/
theorem whole_or_cuts (d : Int) (text : List Char) :
    S.Whole d text ∨ ∃ before c rest, text = before ++ c :: rest ∧ S.Whole d before ∧
      S.cuts c (d + Text.depth before) = true := by
  induction text generalizing d with
  | nil => exact .inl trivial
  | cons c text ih =>
    cases hc : S.cuts c d with
    | true => exact .inr ⟨[], c, text, rfl, trivial, by simpa using hc⟩
    | false =>
      rcases ih (d + Text.depth [c]) with h | ⟨before, c', rest, rfl, hbefore, hcuts⟩
      · exact .inl ⟨hc, h⟩
      · refine .inr ⟨c :: before, c', rest, rfl, ⟨hc, hbefore⟩, ?_⟩
        rwa [Int.add_assoc, ← Text.depth_append] at hcuts

/-- A text is taken apart at the first place where it is split, and then what follows. -/
@[elab_as_elim]
theorem cut_induction {motive : Int → List Char → Prop}
    (whole : ∀ d text, S.Whole d text → motive d text)
    (cut : ∀ d text c rest, S.Whole d text → S.cuts c (d + Text.depth text) = true →
      motive (d + Text.depth text) rest → motive d (text ++ c :: rest))
    (d : Int) (text : List Char) : motive d text := by
  rcases whole_or_cuts (S := S) d text with h | ⟨before, c, rest, heq, hbefore, hcuts⟩
  · exact whole d text h
  · rw [heq]
    exact cut d before c rest hbefore hcuts (cut_induction whole cut _ rest)
termination_by text.length
decreasing_by
  rw [heq, List.length_append, List.length_cons]
  omega

/-! ### Pieces and elements -/

theorem pieces_of_whole {text : List Char} (h : S.Whole d text) : S.pieces d text = [text] := by
  induction text generalizing d with
  | nil => rfl
  | cons c text ih =>
    rw [pieces, if_neg (by simp [h.1]), ih h.2]
    rfl

/-- The first piece stands before the first place where the text is split. -/
theorem pieces_append_cons {text : List Char} {c : Char} (h : S.Whole d text)
    (hcuts : S.cuts c (d + Text.depth text) = true) (rest : List Char) :
    S.pieces d (text ++ c :: rest) = text :: S.pieces (d + Text.depth text) rest := by
  induction text generalizing d with
  | nil =>
    rw [Text.depth_nil, Int.add_zero] at hcuts ⊢
    rw [List.nil_append, pieces, if_pos hcuts]
  | cons x text ih =>
    have hdepth : Text.depth (x :: text) = Text.depth [x] + Text.depth text :=
      Text.depth_append [x] text
    rw [hdepth, ← Int.add_assoc] at hcuts ⊢
    rw [List.cons_append, pieces, if_neg (by simp [h.1]), ih h.2 hcuts]
    rfl

/-- A function that puts the characters of a piece together one by one, the first piece continuing
one already begun, gives the pieces. -/
theorem eq_pieces_of_step {split : List Char → Int → List Char → List (List Char)}
    (hnil : ∀ begun d, split begun d [] = [begun.reverse])
    (hcons : ∀ begun d c rest, split begun d (c :: rest) =
      if c = '(' then split (c :: begun) (d + 1) rest
      else if c = ')' then split (c :: begun) (d - 1) rest
      else if S.cuts c d then begun.reverse :: split [] d rest
      else split (c :: begun) d rest)
    (d : Int) (text : List Char) : split [] d text = S.pieces d text := by
  have hstep (begun : List Char) (d : Int) (c : Char) (rest : List Char) :
      split begun d (c :: rest) = if S.cuts c d then begun.reverse :: split [] d rest
        else split (c :: begun) (d + Text.depth [c]) rest := by
    rw [hcons]
    by_cases hopen : c = '('
    · rw [if_pos hopen, hopen, cuts, S.marks_open]
      rfl
    · by_cases hclose : c = ')'
      · rw [if_neg hopen, if_pos hclose, hclose, cuts, S.marks_close]
        rfl
      · rw [if_neg hopen, if_neg hclose, Text.depth_cons_of_ne hopen hclose, Text.depth_nil,
          Int.add_zero]
  have hbegun (begun : List Char) (d : Int) :
      split begun d text = (S.pieces d text).modifyHead (begun.reverse ++ ·) := by
    induction text generalizing begun d with
    | nil => rw [hnil, pieces, List.modifyHead_cons, List.append_nil]
    | cons c rest ih =>
      rw [hstep, pieces]
      split_ifs
      · rw [ih, List.modifyHead_cons, List.append_nil]
        exact congrArg _ (congrFun List.modifyHead_id _)
      · rw [ih, List.modifyHead_modifyHead]
        congr 1
        funext piece
        simp
  rw [hbegun]
  exact congrFun List.modifyHead_id _

/-- The pieces of a text stand in it. -/
theorem infix_pieces {text piece : List Char} (h : piece ∈ S.pieces d text) : piece <:+: text := by
  induction d, text using cut_induction (S := S) with
  | whole d text hwhole =>
    rw [pieces_of_whole hwhole] at h
    exact List.mem_singleton.1 h ▸ List.infix_refl _
  | cut d text c rest hwhole hcuts ih =>
    rw [pieces_append_cons hwhole hcuts] at h
    rcases List.mem_cons.1 h with rfl | h
    · exact (List.prefix_append _ _).isInfix
    · exact (ih h).trans ((List.suffix_cons c rest).trans (List.suffix_append _ _)).isInfix

theorem solid_of_trimmed {item : List Char} (htrim : Text.trim item = item) (hne : item ≠ []) :
    solid item = [item] := by
  rw [solid, htrim, List.filter_cons_of_pos (by simpa using hne), List.filter_nil]

theorem solid_eq_nil {piece : List Char} (h : Text.trim piece = []) : solid piece = [] := by
  rw [solid, h]
  rfl

/-- What is left of a piece is balanced if and only if the piece is. -/
theorem forall_mem_solid_iff (piece : List Char) :
    (∀ item ∈ solid piece, Text.Balanced item) ↔ Text.Balanced piece := by
  rw [← Text.Balanced.trim_iff]
  by_cases hne : Text.trim piece = []
  · rw [solid_eq_nil hne, hne]
    exact iff_of_true (by simp) (Text.Balanced.of_plain (by simp))
  · rw [solid, List.filter_cons_of_pos (by simpa using hne)]
    simp

theorem elements_of_whole {text : List Char} (h : S.Whole d text) :
    S.elements d text = solid text := by
  rw [elements, pieces_of_whole h]
  rfl

theorem elements_append_cons {text : List Char} {c : Char} (h : S.Whole d text)
    (hcuts : S.cuts c (d + Text.depth text) = true) (rest : List Char) :
    S.elements d (text ++ c :: rest) = solid text ++ S.elements (d + Text.depth text) rest := by
  rw [elements, pieces_append_cons h hcuts, List.map_cons, ← List.singleton_append,
    List.filter_append]
  rfl

/-- Nothing stands in front of a mark that a text starts with. -/
theorem elements_cons_of_cuts {c : Char} (h : S.cuts c d = true) (rest : List Char) :
    S.elements d (c :: rest) = S.elements d rest := by
  rw [elements, pieces, if_pos h]
  rfl

/-- Blanks in front of a text make no difference to its elements. -/
theorem elements_blanks_append {blanks : List Char}
    (h : ∀ c ∈ blanks, Text.isBlank c = true) (text : List Char) :
    S.elements d (blanks ++ text) = S.elements d text := by
  induction blanks with
  | nil => rfl
  | cons c blanks ih =>
    obtain ⟨hc, hblanks⟩ := List.forall_mem_cons.1 h
    rw [← ih hblanks, List.cons_append]
    unfold elements
    rw [pieces, Text.depth_of_isBlank hc, Int.add_zero]
    split_ifs
    · rfl
    · cases S.pieces d (blanks ++ text) with
      | nil => rfl
      | cons piece pieces => rw [List.modifyHead_cons, List.map_cons, Text.trim_cons_blank hc,
          List.map_cons]

/-- A text that is not split is the first element before a mark that separates, with blanks between
the two or none. -/
theorem elements_append_blanks_cons {item before : List Char} {c : Char} (h : S.Whole d item)
    (hbefore : ∀ x ∈ before, Text.isBlank x = true)
    (hcuts : S.cuts c (d + Text.depth item) = true) (rest : List Char) :
    S.elements d (item ++ before ++ c :: rest) =
      solid item ++ S.elements (d + Text.depth item) rest := by
  induction before generalizing item with
  | nil =>
    rw [List.append_nil]
    exact elements_append_cons h hcuts rest
  | cons x before ih =>
    obtain ⟨hx, hbefore⟩ := List.forall_mem_cons.1 hbefore
    cases hsplit : S.cuts x (d + Text.depth item) with
    | true =>
      -- A blank may be a mark itself, and then nothing stands between it and the next mark.
      rw [List.append_assoc, List.cons_append, elements_append_cons h hsplit,
        elements_blanks_append hbefore, elements_cons_of_cuts hcuts]
    | false =>
      have hdepth : Text.depth (item ++ [x]) = Text.depth item := by
        rw [Text.depth_append, Text.depth_of_isBlank hx, Int.add_zero]
      have hwhole : S.Whole d (item ++ [x]) := whole_append.2 ⟨h, hsplit, trivial⟩
      have := ih hwhole hbefore (by rwa [hdepth])
      rw [hdepth, solid, Text.trim_concat_blank hx, List.append_assoc item [x] before] at this
      exact this

/-- The elements of a text stand in it. -/
theorem infix_elements {text item : List Char} (h : item ∈ S.elements d text) : item <:+: text := by
  obtain ⟨piece, hpiece, rfl⟩ := List.mem_map.1 (List.mem_filter.1 h).1
  exact (Text.infix_trim piece).trans (infix_pieces hpiece)

/-! ### Joining and splitting -/

/-- **Elements that are not split where they stand are found again.** -/
theorem elements_of_joined {items : List (List Char)} {text : List Char} (h : S.Joined items text)
    (hstays : S.Stays d items) : S.elements d text = items := by
  induction h generalizing d with
  | nil => exact elements_of_whole trivial
  | single item =>
    obtain ⟨⟨htrim, hne, hwhole⟩, -⟩ := hstays
    rw [elements_of_whole hwhole, solid_of_trimmed htrim hne]
  | cons item before c after hbefore hmark hafter hitems _ ih =>
    obtain ⟨⟨htrim, hne, hwhole⟩, hlevel, hrest⟩ := hstays
    rw [elements_append_blanks_cons hwhole hbefore (cuts_iff.2 ⟨hmark, hlevel hitems⟩),
      solid_of_trimmed htrim hne, elements_blanks_append hafter, ih hrest]
    rfl

theorem joined_intercalate {c : Char} {gap : List Char} (hmark : S.marks c = true)
    (hgap : ∀ x ∈ gap, Text.isBlank x = true) (items : List (List Char)) :
    S.Joined items ((c :: gap).intercalate items) := by
  induction items with
  | nil => exact .nil
  | cons item items ih =>
    cases items with
    | nil =>
      rw [List.intercalate_singleton]
      exact .single item
    | cons next items =>
      have := Joined.cons item [] c gap (by simp) hmark hgap (List.cons_ne_nil _ _) ih
      simpa using this

/-- **The elements of any text are not split where they stand one behind the other.** -/
theorem stays_elements (d : Int) (text : List Char) : S.Stays d (S.elements d text) := by
  induction d, text using cut_induction (S := S) with
  | whole d text h =>
    rw [elements_of_whole h]
    by_cases hne : Text.trim text = []
    · rw [solid_eq_nil hne]
      trivial
    · rw [solid, List.filter_cons_of_pos (by simpa using hne)]
      exact ⟨⟨Text.trim_trim text, hne, h.trim⟩, fun h => absurd rfl h, trivial⟩
  | cut d text c rest h hcuts ih =>
    rw [elements_append_cons h hcuts]
    by_cases hne : Text.trim text = []
    · rw [solid_eq_nil hne]
      rwa [← Text.depth_trim text, hne, Text.depth_nil, Int.add_zero] at ih ⊢
    · rw [solid, List.filter_cons_of_pos (by simpa using hne)]
      refine ⟨⟨Text.trim_trim text, hne, h.trim⟩, fun _ => ?_, ?_⟩
      · rw [Text.depth_trim]
        exact (cuts_iff.1 hcuts).2
      · rw [Text.depth_trim]
        exact ih

/-- Splitting a text, joining its elements and splitting again gives the same elements. -/
theorem elements_intercalate_elements {c : Char} {gap : List Char} (hmark : S.marks c = true)
    (hgap : ∀ x ∈ gap, Text.isBlank x = true) (d : Int) (text : List Char) :
    S.elements d ((c :: gap).intercalate (S.elements d text)) = S.elements d text :=
  elements_of_joined (joined_intercalate hmark hgap _) (stays_elements d text)

/-! ### Balanced elements -/

/-- A text is not split if no mark in it separates. -/
theorem whole_of_level {text : List Char}
    (h : ∀ i c, text[i]? = some c → S.marks c = true →
      S.level (d + Text.depth (text.take i)) = false) : S.Whole d text := by
  induction text generalizing d with
  | nil => trivial
  | cons c text ih =>
    refine ⟨?_, ih fun i x hx hmark => ?_⟩
    · rw [cuts, Bool.and_eq_false_iff]
      by_cases hmark : S.marks c = true
      · exact .inr (by simpa using h 0 c rfl hmark)
      · exact .inl (by simpa using hmark)
    · rw [Int.add_assoc, ← Text.depth_append]
      exact h (i + 1) x hx hmark

theorem isElement_iff {item : List Char} :
    S.IsElement item ↔ Text.trim item = item ∧ item ≠ [] ∧ Text.Balanced item ∧
      ∀ i : Fin item.length, S.marks item[i] = true → Text.Within item i := by
  refine ⟨fun h => ⟨h.trimmed, h.nonempty, h.balanced, fun i hmark => ?_⟩,
    fun ⟨htrim, hne, hbalanced, hwithin⟩ => ⟨htrim, hne, hbalanced, fun i c hc hmark => ?_⟩⟩
  · exact h.within i item[i] (List.getElem?_eq_getElem i.isLt) hmark
  · obtain ⟨hi, rfl⟩ := List.getElem?_eq_some_iff.1 hc
    exact hwithin ⟨i, hi⟩ hmark

instance : DecidablePred S.IsElement := fun _ => decidable_of_iff _ isElement_iff.symm

/-- A mark in parentheses of a balanced text does not separate. -/
theorem IsElement.whole {item : List Char} (h : S.IsElement item) : S.Whole 0 item := by
  refine whole_of_level fun i c hc hmark => S.level_pos _ ?_
  have haround := Text.within_iff_around.1 (h.within i c hc hmark)
  rw [h.balanced.depth_take (getElem?_ne_close hc hmark)]
  omega

/-- **Balanced elements with their marks in parentheses are not split.** -/
theorem stays_of_isElement {items : List (List Char)} (h : ∀ item ∈ items, S.IsElement item) :
    S.Stays 0 items := by
  induction items with
  | nil => trivial
  | cons item items ih =>
    obtain ⟨hitem, hitems⟩ := List.forall_mem_cons.1 h
    refine ⟨⟨hitem.trimmed, hitem.nonempty, hitem.whole⟩, ?_⟩
    rw [hitem.balanced.ends]
    exact ⟨fun _ => S.level_zero, ih hitems⟩

end Separation

end TypedSheets
