import TypedSheets.Proofs.Relation.Chains
import TypedSheets.Proofs.TypeExpr.Partners
import TypedSheets.Proofs.TypeExpr.Unkeying

/-!
# Marks of keys, read and stripped off

There are two ways to take the mark of a key off an annotation: to read the annotation and forget
the mark, and to strip it off the text. A nullable mark may stand inside the mark of a key or behind
it, with or without blanks, and reading collects all of them. Stripping takes off one mark at a time
and keeps the others, so that the two agree for most annotations but not for all.

## Main definitions

* `TypeExpr.LooselyMarked` — the texts of the annotations for which the two do not agree.

## Main results

* `TypeExpr.parse_stripped_iff` — when what is left of an annotation is read.
* `TypeExpr.parse_nake_key_iff` — what is stripped off is what is forgotten, unless the key is
  marked loosely.
* `Schemas.reads_unkeyed` — the same, and what chains of relations meet.
-/

namespace TypedSheets

/-! ### Texts without blanks -/

namespace Text

/-- A text without its blanks. -/
def squeezed (text : List Char) : List Char :=
  text.filter (!isBlank ·)

theorem squeezed_append (text text' : List Char) :
    squeezed (text ++ text') = squeezed text ++ squeezed text' :=
  List.filter_append ..

theorem squeezed_blanks {blanks : List Char} (h : ∀ c ∈ blanks, isBlank c = true) :
    squeezed blanks = [] :=
  List.filter_eq_nil_iff.2 fun c hc => by simp [h c hc]

theorem squeezed_cons {c : Char} (h : isBlank c = false) (text : List Char) :
    squeezed (c :: text) = c :: squeezed text :=
  List.filter_cons_of_pos (by simp [h])

theorem squeezed_trimEnd (text : List Char) : squeezed (trimEnd text) = squeezed text := by
  obtain ⟨blanks, hblanks, htext⟩ := exists_blanks text
  conv_rhs => rw [htext, squeezed_append, squeezed_blanks hblanks, List.append_nil]

theorem squeezed_trim (text : List Char) : squeezed (trim text) = squeezed text := by
  have hblanks : ∀ c ∈ text.takeWhile isBlank, isBlank c = true :=
    fun c hc => List.mem_takeWhile_imp hc
  rw [trim, squeezed_trimEnd, trimStart]
  conv_rhs => rw [← List.takeWhile_append_dropWhile (p := isBlank) (l := text), squeezed_append,
    squeezed_blanks hblanks, List.nil_append]

/-- A text without blanks at its end ends as it does without any. -/
theorem getLast?_squeezed {text : List Char} (h : trimEnd text = text) :
    (squeezed text).getLast? = text.getLast? := by
  induction text using List.reverseRecOn with
  | nil => rfl
  | append_singleton text c =>
    rw [squeezed_append, squeezed_cons (isBlank_of_trimEnd_concat h), List.getLast?_concat,
      show squeezed [] = [] from rfl, List.getLast?_concat]

end Text

namespace TypeExpr

open Bracket

/-! ### Two nullable marks -/

/-- Where a nullable mark is left behind one that is taken off, the text ends with two. -/
theorem twice_iff_of_peelNullable {text bare : List Char} {nullable : Bool}
    (htrim : Text.trimEnd text = text) (h : peelNullable text = (nullable, bare)) :
    ['?', '?'] <:+ Text.squeezed text ↔ bare.getLast? = some '?' := by
  obtain ⟨hbare, hlast, blanks, hblanks, hnone, rfl⟩ := eq_of_peelNullable htrim h
  cases nullable with
  | false =>
    refine iff_of_false (fun ⟨before, hbefore⟩ => hlast rfl ?_) (hlast rfl)
    rw [hnone rfl, if_neg (by decide), List.append_nil, List.append_nil] at hbefore
    rw [← Text.getLast?_squeezed hbare, ← hbefore, List.getLast?_append]
    rfl
  | true =>
    rw [if_pos rfl, Text.squeezed_append, Text.squeezed_append, Text.squeezed_blanks hblanks,
      List.append_nil, ← Text.getLast?_squeezed hbare]
    have hmark : Text.squeezed ['?'] = ['?'] := rfl
    rw [hmark, show ['?', '?'] = ['?'] ++ ['?'] from rfl, List.suffix_append_self_iff,
      List.singleton_suffix_iff_getLast?_eq_some]

/-! ### What is left of a key -/

/-- The group key of a text: what its parentheses enclose, and what stands behind them. -/
theorem exists_of_splitGroupKey {text inside : List Char} {middle : Bool}
    (h : splitGroupKey text = some (inside, middle)) :
    ∃ after, text = '(' :: after ∧
      partnerAfter 0 after = some (inside, if middle then ['?'] else []) := by
  unfold splitGroupKey at h
  split at h
  · rename_i after
    split at h
    · rename_i hpartner
      cases h
      exact ⟨after, rfl, hpartner⟩
    · rename_i hpartner
      cases h
      exact ⟨after, rfl, hpartner⟩
    · cases h
  · cases h

/-- Of a group key is left what its parentheses enclose. -/
theorem nakeGroup_of_enclosed {text inside : List Char}
    (h : partnerAfter 0 text = some (inside, [])) :
    nakeGroup ('(' :: text) = some (Text.trim inside) := by
  rw [nakeGroup, splitGroupKey, h]
  rfl

/-- Of a group key with a nullable mark right behind its parentheses is left what they enclose, with
the mark behind it. -/
theorem nakeGroup_of_marked {text inside : List Char}
    (h : partnerAfter 0 text = some (inside, ['?'])) :
    nakeGroup ('(' :: text) = some (Text.trim inside ++ ['?']) := by
  rw [nakeGroup, splitGroupKey, h]
  rfl

/-- A text in parentheses with something else than a nullable mark behind them is no group key. -/
theorem splitGroupKey_of_partnerAfter {text inside behind : List Char}
    (h : partnerAfter 0 text = some (inside, behind)) (hne : behind ≠ []) (hmark : behind ≠ ['?']) :
    splitGroupKey ('(' :: text) = none := by
  rw [splitGroupKey, h]
  split
  · rename_i heq
    cases heq
    exact absurd rfl hne
  · rename_i heq
    cases heq
    exact absurd rfl hmark
  · rfl

/-- A text that starts with no mark of a key is left as it is. -/
theorem nakeFrom_key_of_front {text body : List Char} {c : Char} {nullable : Bool}
    (htrim : Text.trimEnd text = text) (h : peelNullable text = (nullable, c :: body))
    (hstar : c ≠ '*') (hparen : c ≠ '(') : nakeFrom .key text = text := by
  obtain ⟨-, -, blanks, -, -, rfl⟩ := eq_of_peelNullable htrim h
  refine nakeFrom_of_none ?_
  rw [List.append_assoc, List.cons_append, nakeOnce_key, nakeMark_of_ne hstar,
    nakeGroup_of_ne hparen]
  rfl

/-- A trimmed text whose brackets match is read as what is behind its marks. -/
theorem parse_of_parseBalanced {text : List Char} {e : TypeExpr} (htrim : Text.trim text = text)
    (hcheck : check text = .ok ()) (hread : parseBalanced (String.ofList text) text = .ok e) :
    parse (String.ofList text) = .ok e := by
  have hne : text.isEmpty = false := List.isEmpty_eq_false_iff.2 (readFrom_of_parseBalanced hread).1
  unfold parse parse?
  rw [String.toList_ofList, htrim]
  dsimp only
  rw [hne, hcheck]
  dsimp only
  rw [hread]
  rfl

/-- **What is left of an annotation without the mark of a key** is read as the annotation without
it, unless a nullable mark is left behind the one that is taken off. -/
theorem parse_stripped_iff {type : String} {e : TypeExpr} {text body rest : List Char} {c : Char}
    {nullable : Bool} {key : KeyRole} (h : parse type = .ok e)
    (hp : peel type (Text.trim type.toList) = .ok (e.flags, rest))
    (hrest : peelRest (nullable || (peelNullable (c :: body)).1) key (peelNullable (c :: body)).2 =
      (e.flags, rest))
    (htrim : Text.trim text = text) (htext : peelNullable text = (nullable, c :: body))
    (hstar : c ≠ '*') (hparen : c ≠ '(') (hcheck : check text = .ok ()) :
    parse (String.ofList text) = .ok e.unkeyed ↔ (c :: body).getLast? ≠ some '?' := by
  have hpeel := peel_of_front htrim htext hstar hparen (String.ofList text)
  constructor
  · intro hparse hlast
    have hread := parseBalanced_of_parse hparse
    rw [String.toList_ofList, htrim] at hread
    exact (ends_of_parseBalanced hpeel hread).2 (getLast?_peelStrength hlast false false)
  · intro hlast
    have hinner : peelNullable (c :: body) = (false, c :: body) := by
      rw [peelNullable, Text.stripSuffix, if_neg hlast]
    rw [hinner] at hrest
    obtain ⟨hflags, rfl⟩ := Prod.mk.inj hrest
    have hread : parseBalanced (String.ofList text) text =
        .ok (e.withFlags { e.flags with key := .none }) := by
      refine parseBalanced_congr hp ?_ (parseBalanced_of_parse h)
      rw [hpeel, ← hflags, Bool.or_false]
      rfl
    exact parse_of_parseBalanced htrim hcheck hread

/-- What is left is read if all the nullable marks are taken off. -/
theorem parse_stripped {type : String} {e : TypeExpr} {text body rest : List Char} {c : Char}
    {nullable : Bool} {key : KeyRole} (h : parse type = .ok e)
    (hp : peel type (Text.trim type.toList) = .ok (e.flags, rest))
    (hrest : peelRest nullable key (c :: body) = (e.flags, rest)) (htrim : Text.trim text = text)
    (htext : peelNullable text = (nullable, c :: body)) (hstar : c ≠ '*') (hparen : c ≠ '(')
    (hcheck : check text = .ok ()) :
    parse (String.ofList text) = .ok e.unkeyed ∧ (c :: body).getLast? ≠ some '?' := by
  obtain ⟨-, hlast⟩ := ends_of_parseBalanced hp (parseBalanced_of_parse h)
  have hbare : (c :: body).getLast? ≠ some '?' := fun hbare =>
    hlast ((Prod.mk.inj hrest).2 ▸ getLast?_peelStrength hbare false false)
  have hsame : peelRest (nullable || (peelNullable (c :: body)).1) key
      (peelNullable (c :: body)).2 = (e.flags, rest) := by
    rw [peelNullable, Text.stripSuffix, if_neg hbare]
    dsimp only
    rw [Bool.or_false, hrest]
  exact ⟨(parse_stripped_iff h hp hsame htrim htext hstar hparen hcheck).2 hbare, hbare⟩

/-! ### Loose marks -/

/-- The marks of a key that are not kept when it is stripped off: there are two nullable marks, both
at the end or one inside the parentheses of a group key, or there is a blank between the parentheses
and the mark behind them. -/
def LooselyMarked (text : List Char) : Prop :=
  ['?', '?'] <:+ Text.squeezed text ∨
    text.head? = some '(' ∧ (['?', ')', '?'] <:+ Text.squeezed text ∨
      [')', '?'] <:+ Text.squeezed text ∧ ¬ [')', '?'] <:+ text)

instance (text : List Char) : Decidable (LooselyMarked text) :=
  inferInstanceAs (Decidable (_ ∨ _ ∧ (_ ∨ _ ∧ ¬ _)))

/-- A group key without its blanks. -/
theorem squeezed_group (inside behind : List Char) :
    Text.squeezed ('(' :: (inside ++ ')' :: behind)) =
      '(' :: Text.squeezed inside ++ ')' :: Text.squeezed behind := by
  rw [Text.squeezed_cons (by decide), Text.squeezed_append, Text.squeezed_cons (by decide)]
  rfl

/-- A group key without a mark behind its parentheses is not marked loosely. -/
theorem not_looselyMarked_of_group (inside : List Char) :
    ¬ LooselyMarked ('(' :: (inside ++ [')'])) := by
  have hend (start : List Char) :
      ¬ start ++ ['?'] <:+ '(' :: Text.squeezed inside ++ [')'] := fun h => by
    have hlast := List.singleton_suffix_append_singleton_iff.1 ((List.suffix_append _ _).trans h)
    exact absurd hlast (by decide)
  rw [LooselyMarked, squeezed_group]
  rintro (h | ⟨-, h | ⟨h, -⟩⟩)
  · exact hend ['?'] h
  · exact hend ['?', ')'] h
  · exact hend [')'] h

/-- A group key with a mark right behind its parentheses is marked loosely if there is one inside.
-/
theorem looselyMarked_group_iff (inside : List Char) :
    LooselyMarked ('(' :: (inside ++ [')', '?'])) ↔ (Text.trim inside).getLast? = some '?' := by
  have htwice : ¬ ['?'] ++ ['?'] <:+ ('(' :: Text.squeezed inside ++ [')']) ++ ['?'] := by
    rw [List.suffix_append_self_iff, List.singleton_suffix_append_singleton_iff]
    decide
  have hinner : ['?'] ++ [')', '?'] <:+ '(' :: Text.squeezed inside ++ [')', '?'] ↔
      (Text.trim inside).getLast? = some '?' := by
    rw [List.suffix_append_self_iff, List.singleton_suffix_iff_getLast?_eq_some,
      ← Text.getLast?_squeezed (Text.trimEnd_trim inside), Text.squeezed_trim]
    cases hlast : (Text.squeezed inside).getLast? with
    | none => simp [List.getLast?_cons, hlast]
    | some c => simp [List.getLast?_cons, hlast]
  have hadjacent : [')', '?'] <:+ '(' :: (inside ++ [')', '?']) :=
    ⟨'(' :: inside, rfl⟩
  have hmark : Text.squeezed ['?'] = ['?'] := rfl
  rw [LooselyMarked, squeezed_group, hmark, ← hinner]
  constructor
  · rintro (h | ⟨-, h | ⟨-, h⟩⟩)
    · exact absurd (by simpa using h) htwice
    · exact h
    · exact absurd hadjacent h
  · intro h
    exact .inr ⟨rfl, .inl h⟩

/-- A group key with anything else behind its parentheses is marked loosely. -/
theorem looselyMarked_of_behind (inside : List Char) {blanks : List Char} {middle : Bool}
    (hblanks : ∀ c ∈ blanks, Text.isBlank c = true) (hbehind : middle = true ∨ blanks ≠ []) :
    LooselyMarked
      ('(' :: (inside ++ ')' :: ((if middle then ['?'] else []) ++ blanks ++ ['?']))) := by
  have hmark : Text.squeezed ['?'] = ['?'] := rfl
  rw [LooselyMarked, squeezed_group, Text.squeezed_append, Text.squeezed_append,
    Text.squeezed_blanks hblanks, List.append_nil, hmark]
  cases middle with
  | true => exact .inl ⟨'(' :: Text.squeezed inside ++ [')'], by simp [hmark]⟩
  | false =>
    refine .inr ⟨rfl, .inr ⟨⟨'(' :: Text.squeezed inside, rfl⟩, fun h => ?_⟩⟩
    obtain ⟨start, blank, rfl⟩ : ∃ start blank, blanks = start ++ [blank] :=
      List.eq_nil_or_concat' blanks |>.resolve_left (hbehind.resolve_left (by decide))
    have hlast : [')'] ++ ['?'] <:+ ('(' :: (inside ++ ')' :: start) ++ [blank]) ++ ['?'] := by
      simpa using h
    rw [List.suffix_append_self_iff, List.singleton_suffix_append_singleton_iff] at hlast
    have hblank := hblanks blank (by simp)
    rw [← hlast] at hblank
    cases hblank

section Keys

variable {type : String} {e : TypeExpr} {rest : List Char}

/-- The text of an annotation that is read has matching brackets. -/
theorem check_of_parse (h : parse type = .ok e) : check (Text.trim type.toList) = .ok () := by
  unfold parse parse? at h
  dsimp only at h
  split at h
  · cases h
  · split at h
    · cases h
    · assumption

/-- An annotation that is no key is left as it is. -/
theorem parse_nake_key_of_plain (h : parse type = .ok e)
    (hp : peel type (Text.trim type.toList) = .ok (e.flags, rest)) {outer : Bool} {bare : List Char}
    (htext : peelNullable (Text.trim type.toList) = (outer, bare))
    (hrest : peelRest outer .none bare = (e.flags, rest)) :
    parse (nake .key type) = .ok e.unkeyed ∧ ¬ LooselyMarked (Text.trim type.toList) := by
  obtain ⟨hfront, -⟩ := ends_of_parseBalanced hp (parseBalanced_of_parse h)
  obtain ⟨c, body, rfl, hstar, hparen⟩ := exists_front_of_peelRest hrest hfront
  have htrim := Text.trimEnd_trim type.toList
  obtain ⟨hparse, hbare⟩ := parse_stripped h hp hrest (Text.trim_trim _) htext hstar hparen
    (check_of_parse h)
  constructor
  · rw [nake, nakeFrom_key_of_front htrim htext hstar hparen]
    exact hparse
  · rintro (htwice | ⟨hhead, -⟩)
    · exact hbare ((twice_iff_of_peelNullable htrim htext).1 htwice)
    · obtain ⟨-, -, blanks, -, -, heq⟩ := eq_of_peelNullable htrim htext
      rw [heq] at hhead
      cases hhead
      exact hparen rfl

/-- A primary key is left without its mark. -/
theorem parse_nake_key_of_primary (h : parse type = .ok e) (hkey : e.flags.key = .primary) :
    parse (nake .key type) = .ok e.unkeyed ↔ ¬ LooselyMarked (Text.trim type.toList) := by
  obtain ⟨outer, c, body, after, rest, htype, hstar, hparen, hafter, hprefix, hp, hrest⟩ :=
    exists_marked h hkey
  have hcheck : check (Text.trim after) = .ok () := by
    have hcheck := check_of_parse h
    rw [htype, check, checkFrom_plain (by decide) (by decide)] at hcheck
    rw [check_trim, check, hcheck]
  have hloose : LooselyMarked (Text.trim type.toList) ↔ (c :: body).getLast? = some '?' := by
    rw [← twice_iff_of_peelNullable (Text.trimEnd_trim after) hafter, Text.squeezed_trim,
      LooselyMarked, htype, Text.squeezed_cons (by decide), List.suffix_cons_iff]
    simp
  rw [nake_key_of_marked htype hstar hparen hprefix, hloose]
  exact parse_stripped_iff h hp hrest (Text.trim_trim after) hafter hstar hparen hcheck

/-- Behind the parentheses of a group key stand nullable marks and blanks. -/
theorem exists_behind_of_group (h : parse type = .ok e) {outer middle : Bool}
    {bare inside : List Char} (htext : peelNullable (Text.trim type.toList) = (outer, bare))
    (hgroup : splitGroupKey bare = some (inside, middle)) :
    ∃ behind, Text.trim type.toList = '(' :: (inside ++ ')' :: behind) ∧
      partnerAfter 0 (inside ++ ')' :: behind) = some (inside, behind) ∧
      check inside = .ok () ∧
      (behind = [] ∧ (outer || middle) = false ∨ behind = ['?'] ∧ (outer || middle) = true ∨
        behind ≠ [] ∧ behind ≠ ['?'] ∧ LooselyMarked (Text.trim type.toList)) := by
  obtain ⟨-, hmark, blanks, hblanks, hnone, htype⟩ := eq_of_peelNullable (Text.trimEnd_trim _) htext
  obtain ⟨after, rfl, hpartner⟩ := exists_of_splitGroupKey hgroup
  have hbehind := partnerAfter_append hpartner (blanks ++ if outer then ['?'] else [])
  rw [List.cons_append, List.cons_append, List.append_assoc] at htype
  have hcheck := check_of_parse h
  rw [htype, check, checkFrom_opening (by decide)] at hcheck
  obtain ⟨c, hc, hopener, htext, hinside, -⟩ := check_of_partnerAfter hcheck hbehind
  obtain rfl := eq_of_opener hc hopener
  rw [htext] at hbehind htype
  refine ⟨_, htype, hbehind, hinside, ?_⟩
  cases outer with
  | false =>
    left
    rw [hnone rfl] at htext ⊢
    cases middle with
    | false => exact ⟨rfl, rfl⟩
    | true =>
      -- the mark would have been peeled off as the outer one
      refine absurd ?_ (hmark rfl)
      rw [if_neg (by decide), List.append_nil, List.append_nil] at htext
      rw [htext, ← List.cons_append, List.getLast?_append]
      rfl
  | true =>
    right
    by_cases hneat : middle = true ∨ blanks ≠ []
    · have hloose := looselyMarked_of_behind inside hblanks hneat
      refine .inr ⟨by simp, ?_, ?_⟩
      · rw [← List.append_assoc]
        intro hmark
        cases middle with
        | true => simp at hmark
        | false => exact hneat.resolve_left (by decide) (by simpa using hmark)
      · rw [htype, ← List.append_assoc]
        exact hloose
    · obtain ⟨hmiddle, rfl⟩ := not_or.1 hneat |>.imp_right not_not.1
      rw [if_neg hmiddle]
      exact .inl ⟨rfl, rfl⟩

/-- What is left of a group key with nothing behind its parentheses is what they enclose. -/
theorem parse_nake_key_of_enclosed (h : parse type = .ok e)
    (hp : peel type (Text.trim type.toList) = .ok (e.flags, rest)) {inside : List Char}
    (htype : Text.trim type.toList = '(' :: (inside ++ [')']))
    (hpartner : partnerAfter 0 (inside ++ [')']) = some (inside, []))
    (hcheck : check inside = .ok ())
    (hrest : peelRest (peelNullable (Text.trim inside)).1 .group
      (peelNullable (Text.trim inside)).2 = (e.flags, rest)) :
    parse (nake .key type) = .ok e.unkeyed := by
  obtain ⟨hfront, -⟩ := ends_of_parseBalanced hp (parseBalanced_of_parse h)
  obtain ⟨c, inner, hinner, hstar, hparen⟩ := exists_front_of_peelRest hrest hfront
  have hpeeled : peelNullable (Text.trim inside) =
      ((peelNullable (Text.trim inside)).1, c :: inner) :=
    Prod.ext rfl hinner
  obtain ⟨body, hbody⟩ := exists_cons_of_peelNullable (Text.trimEnd_trim inside) hinner
  have hne : Text.trim inside ≠ [] := by simp [hbody]
  have hstep : nakeOnce .key (Text.trim type.toList) = some (Text.trim inside) := by
    rw [htype]
    exact nakeOnce_group rfl (nakeGroup_of_enclosed hpartner)
  rw [hinner] at hrest
  rw [nake, nakeFrom_of_step hstep hne,
    nakeFrom_key_of_front (Text.trimEnd_trim inside) hpeeled hstar hparen]
  exact (parse_stripped h hp hrest (Text.trim_trim inside) hpeeled hstar hparen
    ((check_trim inside).trans hcheck)).1

/-- What is left of a group key with a nullable mark right behind its parentheses is what they
enclose, with the mark behind it. -/
theorem parse_nake_key_of_marked (h : parse type = .ok e)
    (hp : peel type (Text.trim type.toList) = .ok (e.flags, rest)) {inside : List Char}
    (htype : Text.trim type.toList = '(' :: (inside ++ [')', '?']))
    (hpartner : partnerAfter 0 (inside ++ [')', '?']) = some (inside, ['?']))
    (hcheck : check inside = .ok ())
    (hrest : peelRest (true || (peelNullable (Text.trim inside)).1) .group
      (peelNullable (Text.trim inside)).2 = (e.flags, rest)) :
    parse (nake .key type) = .ok e.unkeyed ↔ (Text.trim inside).getLast? ≠ some '?' := by
  obtain ⟨hfront, -⟩ := ends_of_parseBalanced hp (parseBalanced_of_parse h)
  obtain ⟨c, inner, hinner, hstar, hparen⟩ := exists_front_of_peelRest hrest hfront
  obtain ⟨body, hbody⟩ := exists_cons_of_peelNullable (Text.trimEnd_trim inside) hinner
  have hstep : nakeOnce .key (Text.trim type.toList) = some (Text.trim inside ++ ['?']) := by
    rw [htype]
    exact nakeOnce_group rfl (nakeGroup_of_marked hpartner)
  have hpeeled : peelNullable (Text.trim inside ++ ['?']) = (true, c :: body) := by
    rw [peelNullable_concat, Text.trimEnd_trim, hbody]
  have htrim : Text.trim (Text.trim inside ++ ['?']) = Text.trim inside ++ ['?'] := by
    rw [Text.trim, Text.trimStart_concat (by decide), Text.trimStart_trim,
      Text.trimEnd_concat (by decide)]
  have hchecked : check (Text.trim inside ++ ['?']) = .ok () := by
    rw [check_concat (by decide) (by decide), check_trim, hcheck]
  rw [nake, nakeFrom_of_step hstep (by simp),
    nakeFrom_key_of_front (Text.trimEnd_concat (by decide) _) hpeeled hstar hparen]
  rw [hbody] at hrest
  have hiff := parse_stripped_iff h hp hrest htrim hpeeled hstar hparen hchecked
  rwa [← hbody] at hiff

/-- A group key with anything else behind its parentheses is left as it is. -/
theorem parse_nake_key_of_behind (hp : peel type (Text.trim type.toList) = .ok (e.flags, rest))
    (hkey : e.flags.key = .group) {inside behind : List Char}
    (htype : Text.trim type.toList = '(' :: (inside ++ ')' :: behind))
    (hpartner : partnerAfter 0 (inside ++ ')' :: behind) = some (inside, behind))
    (hne : behind ≠ []) (hmark : behind ≠ ['?']) : parse (nake .key type) ≠ .ok e.unkeyed := by
  intro hparse
  have hstop : nakeFrom .key (Text.trim type.toList) = Text.trim type.toList := by
    refine nakeFrom_of_none ?_
    rw [htype, nakeOnce_key, nakeMark_of_ne (by decide), nakeGroup,
      splitGroupKey_of_partnerAfter hpartner hne hmark]
    rfl
  have hread := parseBalanced_of_parse hparse
  rw [nake, hstop, String.toList_ofList, Text.trim_trim] at hread
  have hflags := flags_of_parseBalanced (peel_congr hp _) hread
  rw [unkeyed, flags_withFlags] at hflags
  cases hkey.symm.trans (congrArg Flags.key hflags.symm)

/-- A group key is left without its parentheses. -/
theorem parse_nake_key_of_group (h : parse type = .ok e)
    (hp : peel type (Text.trim type.toList) = .ok (e.flags, rest)) {outer middle : Bool}
    {bare inside : List Char} (htext : peelNullable (Text.trim type.toList) = (outer, bare))
    (hgroup : splitGroupKey bare = some (inside, middle))
    (hrest : peelRest (outer || middle || (peelNullable (Text.trim inside)).1) .group
      (peelNullable (Text.trim inside)).2 = (e.flags, rest)) :
    parse (nake .key type) = .ok e.unkeyed ↔ ¬ LooselyMarked (Text.trim type.toList) := by
  obtain ⟨behind, htype, hpartner, hcheck, hbehind⟩ := exists_behind_of_group h htext hgroup
  rcases hbehind with ⟨rfl, houter⟩ | ⟨rfl, houter⟩ | ⟨hne, hmark, hloose⟩
  · rw [houter, Bool.false_or] at hrest
    exact iff_of_true (parse_nake_key_of_enclosed h hp htype hpartner hcheck hrest)
      (htype ▸ not_looselyMarked_of_group inside)
  · rw [houter] at hrest
    rw [parse_nake_key_of_marked h hp htype hpartner hcheck hrest, htype, looselyMarked_group_iff]
  · have hkey : e.flags.key = .group := congrArg (·.1.key) hrest.symm
    exact iff_of_false (parse_nake_key_of_behind hp hkey htype hpartner hne hmark)
      (not_not.2 hloose)

/-- **Stripping the mark of a key agrees with reading** unless the key is marked loosely. -/
theorem parse_nake_key_iff (h : parse type = .ok e) :
    parse (nake .key type) = .ok e.unkeyed ↔ ¬ LooselyMarked (Text.trim type.toList) := by
  have hread := parseBalanced_of_parse h
  obtain ⟨flags, rest, hp⟩ := exists_peel_of_parseBalanced hread
  obtain rfl := flags_of_parseBalanced hp hread
  have hpeeled := peeled_of_peel hp
  rw [Text.trim_trim] at hpeeled
  cases hpeeled with
  | plain htext hrest =>
    obtain ⟨hparse, hloose⟩ := parse_nake_key_of_plain h hp htext hrest
    exact iff_of_true hparse hloose
  | primary htext hrest => exact parse_nake_key_of_primary h (congrArg (·.1.key) hrest.symm)
  | group htext hgroup hrest => exact parse_nake_key_of_group h hp htext hgroup hrest

end Keys

end TypeExpr

namespace Schemas

/-- **Keys are stripped off as they are read**, unless they are marked loosely: what is left of an
annotation is read as the annotation without the mark of its key. So if no column that a relation
leads to is marked loosely, the chain of a relation meets annotations that can be read and are no
keys, and ends in a root type or in a faulty reference. -/
theorem reads_unkeyed (ss : Schemas) :
    (∀ type e, TypeExpr.parse type = .ok e →
      (TypeExpr.parse (nake .key type) = .ok e.unkeyed ↔
        ¬ TypeExpr.LooselyMarked (Text.trim type.toList))) ∧
    ((∀ t c, ss.linked t = .ok c → ¬ TypeExpr.LooselyMarked (Text.trim c.type.toList)) →
      (∀ t c, ss.linked t = .ok c →
        ∃ e, TypeExpr.parse (nake .key c.type) = .ok e ∧ e.flags.key = .none) ∧
      ∀ visited type e, TypeExpr.parse type = .ok e →
        (ss.rootFrom visited type).ErrorsIn fun f => ∃ detail, f = .reference detail) := by
  refine ⟨fun type e h => TypeExpr.parse_nake_key_iff h, fun hneat => ?_⟩
  have hreads (t : Target) (c : SchemaColumn) (hc : ss.linked t = .ok c) :
      TypeExpr.parse (nake .key c.type) = .ok c.expr.unkeyed :=
    (TypeExpr.parse_nake_key_iff c.parses).2 (hneat t c hc)
  refine ⟨fun t c hc => ⟨_, hreads t c hc, ?_⟩, fun visited type e h =>
    errorsIn_rootFrom_of_parse (fun t c hc => ⟨_, hreads t c hc⟩) h⟩
  exact congrArg Flags.key (TypeExpr.flags_withFlags c.expr _)

/-- A group key with blanks inside and a nullable mark right behind it. -/
def zoneKey : SchemaColumn where
  name := "Item"
  type := " ( $Item )? "
  expr := .relation { key := .group, nullable := true } ⟨"Item", none⟩
  scope := .common
  inherited := false
  parses := by decide +kernel

/-- A primary key with blanks between its marks. -/
def itemKey : SchemaColumn where
  name := "Id"
  type := "* int ?"
  expr := .primitive { key := .primary, nullable := true } .int32
  scope := .common
  inherited := false
  parses := by decide +kernel

/-- Keys with blanks between their marks. -/
def spacedKeys : Schemas :=
  .ofList [("Zone", tableOf "Zone" [zoneKey]), ("Item", tableOf "Item" [itemKey])]

/-- Blanks between the marks of keys do no harm. -/
theorem reads_unkeyed_spaced :
    TypeExpr.parse " ( $Item )? " = .ok zoneKey.expr ∧
    TypeExpr.parse (nake .key " ( $Item )? ") =
      .ok (.relation { nullable := true } ⟨"Item", none⟩) ∧
    (spacedKeys.rootFrom [] "$Zone").ErrorsIn fun f => ∃ detail, f = .reference detail := by
  have hneat : ∀ s ∈ spacedKeys.values, ∀ c ∈ s.columns.values,
      ¬ TypeExpr.LooselyMarked (Text.trim c.type.toList) := by
    decide +kernel
  obtain ⟨hread, hchain⟩ := reads_unkeyed spacedKeys
  refine ⟨zoneKey.parses, (hread _ _ zoneKey.parses).2 (by decide), (hchain fun t c hc => ?_).2 [] _
    (.relation {} ⟨"Zone", none⟩) (by decide +kernel)⟩
  obtain ⟨s, hs, hmem⟩ := exists_mem_of_linked hc
  exact hneat s (Keyed.mem_values_of_find? hs) c hmem

/-- A primary key with a nullable mark behind another. -/
def twiceNullable : SchemaColumn where
  name := "Id"
  type := "*int??"
  expr := .primitive { key := .primary, nullable := true } .int32
  scope := .common
  inherited := false
  parses := by decide +kernel

/-- Two keys that are marked loosely: with two nullable marks, what is left cannot be read, and the
chain of a relation to it is broken; with a blank before the mark, the key is not stripped off. -/
theorem reads_unkeyed_fails :
    ¬ (∀ type e, TypeExpr.parse type = .ok e →
      TypeExpr.parse (nake .key type) = .ok e.unkeyed) ∧
    (Schemas.rootFrom (.ofList [("Item", tableOf "Item" [twiceNullable])]) [] "$Item" =
      .error (.parse "unrecognized type 'int?' in 'int??'")) ∧
    (TypeExpr.parse "(int) ?" = .ok (.primitive { key := .group, nullable := true } .int32) ∧
      nake .key "(int) ?" = "(int) ?") := by
  refine ⟨fun h => ?_, by decide +kernel, by decide +kernel, by decide +kernel⟩
  have hread := h _ _ twiceNullable.parses
  revert hread
  decide +kernel

end Schemas

end TypedSheets
