import TypedSheets.Proofs.Relation.KeyMarks
import TypedSheets.Proofs.Relation.Roots

/-!
# Root types are their own root types

What is left of an annotation that is no relation starts with no mark, since stripping goes on where
reading peels marks off, up to the text of the bare type. The one text that is not stripped that far
is a group key with a blank or a second nullable mark behind its parentheses: it is left as it is,
and read as before. Either text is a terminal one: a chain of relations that ends at it stays there,
also with a nullable mark, and so it is its own root type if it is read at all.

## Main definitions

* `Schemas.Terminal` — the texts that chains end at.

## Main results

* `TypeExpr.nakeFrom_of_peelStrength` — stripping goes on to where strong and sequence marks end.
* `Schemas.terminal_nake` — an annotation that is no relation is stripped down to a terminal text.
* `Schemas.terminal_of_rootFrom` — root types are terminal.
* `Schemas.rootFrom_root` — a root type that is read is its own root type.
-/

namespace TypedSheets

open Schemas (storedMask)

/-! ### Where stripping ends -/

namespace TypeExpr

variable {whole : String} {text bare after : List Char} {c : Char} {nullable strong sequence : Bool}
  {flags : Flags} {e : TypeExpr}

theorem ne_nil_of_peelStrength (h : (peelStrength strong sequence text).2.2 = c :: after) :
    text ≠ [] := by
  rintro rfl
  rw [peelStrength] at h
  · cases h
  · rintro _ ⟨⟩
  · rintro _ ⟨⟩

/-- Marks in front are peeled off alike, whatever is behind. -/
theorem peelStrength_append (h : (peelStrength strong sequence text).2.2 = c :: after)
    (tail : List Char) :
    (peelStrength strong sequence (text ++ tail)).2.2 = c :: (after ++ tail) := by
  have hstart {rest : List Char} {strong sequence : Bool}
      (h : (peelStrength strong sequence (Text.trimStart rest)).2.2 = c :: after) :
      Text.trimStart (rest ++ tail) = Text.trimStart rest ++ tail := by
    have hne := ne_nil_of_peelStrength h
    rw [Text.trimStart, List.dropWhile_append, if_neg (by simpa [Text.trimStart] using hne)]
    rfl
  fun_induction peelStrength strong sequence text with
  | case1 strong sequence rest hlt ih =>
    rw [List.cons_append, peelStrength, hstart h]
    exact ih h
  | case2 strong sequence rest hlt ih =>
    rw [List.cons_append, peelStrength, hstart h]
    exact ih h
  | case3 strong sequence text hstrong hsequence =>
    obtain rfl : text = c :: after := h
    rw [List.cons_append, peelStrength]
    · rintro rest ⟨rfl, -⟩
      exact hstrong after rfl
    · rintro rest ⟨rfl, -⟩
      exact hsequence after rfl

/-- Marks in front are peeled off alike with a nullable mark at the end and without it. -/
theorem exists_of_peelNullable (htrim : Text.trimEnd text = text)
    (h : (peelStrength strong sequence (peelNullable text).2).2.2 = c :: after) :
    ∃ after, (peelStrength strong sequence text).2.2 = c :: after := by
  obtain ⟨-, -, blanks, -, -, htext⟩ := eq_of_peelNullable htrim rfl
  rw [htext, List.append_assoc]
  exact ⟨_, peelStrength_append h _⟩

/-- A trimmed text stays trimmed at its end behind a mark. -/
theorem trim_of_mark (hc : Text.isBlank c = false) (htrim : Text.trim (c :: text) = c :: text) :
    Text.trim text = Text.trimStart text := by
  have hend : Text.trimEnd (c :: text) = c :: text := by
    rw [← htrim, Text.trimEnd_trim]
  rw [Text.trimEnd_cons, hc, Bool.false_and, if_neg Bool.false_ne_true] at hend
  rw [← Text.trimStart_trimEnd, (List.cons.inj hend).2]

/-- The marks that are stripped off the front of an annotation. -/
def frontMarks : List Char := ['*', '(', '!', '~', '$']

theorem nakeOnce_of_front (hc : c ∉ frontMarks) (after : List Char) :
    nakeOnce storedMask (c :: after) = none := by
  simp only [frontMarks, List.mem_cons, List.not_mem_nil, or_false, not_or] at hc
  obtain ⟨hstar, hparen, hstrong, hsequence, hrelation⟩ := hc
  rw [nakeOnce_storedMask, nakeMark_of_ne hstar, nakeGroup_of_ne hparen, nakeMark_of_ne hstrong,
    nakeMark_of_ne hsequence, nakeMark_of_ne hrelation]
  rfl

/-- **Stripping goes on to where strong and sequence marks end**, if no other mark is there. -/
theorem nakeFrom_of_peelStrength (htrim : Text.trim text = text)
    (h : (peelStrength strong sequence text).2.2 = c :: after)
    (hstar : c ≠ '*') (hparen : c ≠ '(') (hrelation : c ≠ '$') :
    c ∉ frontMarks ∧ nakeFrom storedMask text = c :: after ∧
      Text.trim (c :: after) = c :: after := by
  -- each mark is taken off by both, and the blanks behind it too
  fun_induction peelStrength strong sequence text with
  | case1 strong sequence rest hlt ih =>
    have hrest := trim_of_mark (by decide) htrim
    have hstep : nakeOnce storedMask ('!' :: rest) = some (Text.trimStart rest) := by
      rw [nakeOnce_storedMask, nakeMark_of_ne (by decide), nakeGroup_of_ne (by decide),
        nakeMark_self, hrest]
      rfl
    rw [nakeFrom_of_step hstep (ne_nil_of_peelStrength h)]
    exact ih (by rw [← hrest, Text.trim_trim]) h
  | case2 strong sequence rest hlt ih =>
    have hrest := trim_of_mark (by decide) htrim
    have hstep : nakeOnce storedMask ('~' :: rest) = some (Text.trimStart rest) := by
      rw [nakeOnce_storedMask, nakeMark_of_ne (by decide), nakeGroup_of_ne (by decide),
        nakeMark_of_ne (by decide), nakeMark_self, hrest]
      rfl
    rw [nakeFrom_of_step hstep (ne_nil_of_peelStrength h)]
    exact ih (by rw [← hrest, Text.trim_trim]) h
  | case3 strong sequence text hstrong hsequence =>
    obtain rfl : text = c :: after := h
    have hc : c ∉ frontMarks := by
      simp only [frontMarks, List.mem_cons, List.not_mem_nil, or_false, not_or]
      refine ⟨hstar, hparen, ?_, ?_, hrelation⟩
      · rintro rfl
        exact hstrong after rfl
      · rintro rfl
        exact hsequence after rfl
    exact ⟨hc, nakeFrom_of_none (nakeOnce_of_front hc after), htrim⟩

/-- Behind the marks of an annotation that is no relation stands no mark of one. -/
theorem ne_of_relation? (hp : peel whole text = .ok (flags, c :: after))
    (h : parseBalanced whole text = .ok e) (hrelation : e.relation? = none) : c ≠ '$' := by
  rintro rfl
  have hread := readAs_of_parseBalanced hp h
  rw [Form.ofText] at hread
  cases hread with
  | relation ht => cases hrelation

/-- A relation is read only from a text with its mark. -/
theorem exists_target_of_parseBalanced {rest : List Char} {t : Target}
    (hp : peel whole text = .ok (flags, rest)) {f : Flags}
    (h : parseBalanced whole text = .ok (relation f t)) :
    ∃ target, Form.ofText rest = .relation target := by
  have hread := readAs_of_parseBalanced hp h
  generalize Form.ofText rest = form at hread ⊢
  cases hread with
  | relation ht => exact ⟨_, rfl⟩

/-- What is read from a text without the mark of a relation behind its marks is no relation. -/
theorem relation?_of_ne (hp : peel whole text = .ok (flags, c :: after))
    (h : parseBalanced whole text = .ok e) (hc : c ≠ '$') : e.relation? = none := by
  cases e with
  | relation f t =>
    obtain ⟨target, htarget⟩ := exists_target_of_parseBalanced hp h
    rw [Form.ofText_of_ne hc] at htarget
    repeat' split at htarget
    all_goals cases htarget
  | _ => rfl

/-- A text that starts with no mark is read as neither a sequence nor a relation. -/
theorem plain_of_front {type : String} (htype : Text.trim type.toList = c :: after)
    (hc : c ∉ frontMarks) (h : parse type = .ok e) : e.sequence = false ∧ e.relation? = none := by
  simp only [frontMarks, List.mem_cons, List.not_mem_nil, or_false, not_or] at hc
  obtain ⟨hstar, hparen, hstrong, hsequence, hrelation⟩ := hc
  have hread := parseBalanced_of_parse h
  obtain ⟨flags, rest, hp⟩ := exists_peel_of_parseBalanced hread
  have hpeeled := peeled_of_peel hp
  rw [Text.trim_trim] at hpeeled
  have hfront {outer : Bool} {d : Char} {body : List Char}
      (htext : peelNullable (Text.trim type.toList) = (outer, d :: body)) : d = c := by
    obtain ⟨behind, hbehind⟩ :=
      exists_cons_of_peelNullable (Text.trimEnd_trim _) (congrArg Prod.snd htext)
    exact (List.cons.inj (hbehind.symm.trans htype)).1
  cases hpeeled with
  | plain htext hrest =>
    obtain ⟨hends, -⟩ := ends_of_parseBalanced hp hread
    obtain ⟨d, body, rfl, -, -⟩ := exists_front_of_peelRest hrest hends
    obtain rfl := hfront htext
    rw [peelRest_of_ne hstrong hsequence] at hrest
    obtain ⟨rfl, rfl⟩ := Prod.mk.inj hrest
    refine ⟨?_, relation?_of_ne hp hread hrelation⟩
    rw [sequence, flags_of_parseBalanced hp hread]
  | primary htext => exact absurd (hfront htext).symm hstar
  | group htext hgroup =>
    obtain ⟨inside, rfl, -⟩ := exists_of_splitGroupKey hgroup
    exact absurd (hfront htext).symm hparen

/-- Blanks around an annotation make no difference. -/
theorem parse_trimmed {type : String} (h : parse type = .ok e) :
    parse (Text.trimmed type) = .ok e := by
  have hread := parseBalanced_of_parse h
  obtain ⟨flags, rest, hp⟩ := exists_peel_of_parseBalanced hread
  have hsame := parseBalanced_congr hp (peel_congr hp (Text.trimmed type)) hread
  rw [← flags_of_parseBalanced hp hread, withFlags_flags] at hsame
  exact parse_of_parseBalanced (Text.trim_trim _) (check_of_parse h) hsame

end TypeExpr

/-! ### Terminal texts -/

namespace Schemas

open TypeExpr

variable {ss : Schemas} {type root : String} {e : TypeExpr}

/-- The texts that chains end at. -/
inductive Terminal (root : String) : Prop
  /-- A text that starts with no mark. -/
  | bare {c : Char} {after : List Char} (htext : root.toList = c :: after) (hc : c ∉ frontMarks)
    (htrim : Text.trim root.toList = root.toList)
  /-- A group key that is not stripped. -/
  | grouped {e : TypeExpr} (hparse : TypeExpr.parse root = .ok e) (hs : e.sequence = false)
    (hr : e.relation? = none) (hstop : nake storedMask root = root)
    (hmark : isNullable root = true)

/-- The types of sequences are terminal. -/
theorem terminal_int (nullable : Bool) : Terminal (if nullable then "int?" else "int") := by
  cases nullable with
  | true => exact .bare (c := 'i') rfl (by decide) (by decide)
  | false => exact .bare (c := 'i') rfl (by decide) (by decide)

/-- A terminal text stays one with a nullable mark. -/
theorem Terminal.makeNullable (h : Terminal root) : Terminal (makeNullable root) := by
  unfold TypedSheets.makeNullable
  split
  · exact h
  · rename_i hnone
    cases h with
    | bare htext hc htrim =>
      have hmarked : (Text.trimmed root ++ "?").toList = root.toList ++ ['?'] := by
        rw [String.toList_append, Text.trimmed, String.toList_ofList, htrim]
        rfl
      refine .bare (hmarked.trans (congrArg (· ++ ['?']) htext)) hc ?_
      rw [hmarked, Text.trim_concat_of_trim (by decide) htrim]
    | grouped _ _ _ _ hmark => exact absurd hmark hnone

/-- A terminal text that is read is neither a sequence nor a relation, and is not stripped. -/
theorem Terminal.plain (h : Terminal root) (hparse : TypeExpr.parse root = .ok e) :
    e.sequence = false ∧ e.relation? = none ∧ nake storedMask root = root := by
  cases h with
  | bare htext hc htrim =>
    obtain ⟨hs, hr⟩ := plain_of_front (htrim.trans htext) hc hparse
    refine ⟨hs, hr, ?_⟩
    rw [nake, htrim, htext, nakeFrom_of_none (nakeOnce_of_front hc _), ← htext,
      String.ofList_toList]
  | grouped hparse' hs hr hstop =>
    cases hparse.symm.trans hparse'
    exact ⟨hs, hr, hstop⟩

/-- What is stripped off down to a text of which only strong and sequence marks are left is
terminal. -/
theorem terminal_of_front {text : List Char} {c : Char} (hstar : c ≠ '*') (hparen : c ≠ '(')
    (hrelation : c ≠ '$') (htrim : Text.trim text = text)
    (hfront : ∃ after, (peelStrength false false text).2.2 = c :: after)
    (hfrom : nakeFrom storedMask (Text.trim type.toList) = nakeFrom storedMask text) :
    Terminal (nake storedMask type) := by
  obtain ⟨after, hafter⟩ := hfront
  obtain ⟨hc, hnake, htrim⟩ := nakeFrom_of_peelStrength htrim hafter hstar hparen hrelation
  have htext : (nake storedMask type).toList = c :: after := by
    rw [nake, String.toList_ofList, hfrom, hnake]
  exact .bare htext hc (htext ▸ htrim)

/-- A key is stripped down to a terminal text, if only strong and sequence marks are left of it
behind the mark of the key. -/
theorem terminal_of_step {text after : List Char} {c : Char} (hstar : c ≠ '*') (hparen : c ≠ '(')
    (hrelation : c ≠ '$') (htrim : Text.trim text = text)
    (hfront : (peelStrength false false text).2.2 = c :: after)
    (hstep : nakeOnce storedMask (Text.trim type.toList) = some text) :
    Terminal (nake storedMask type) :=
  terminal_of_front hstar hparen hrelation htrim ⟨after, hfront⟩
    (nakeFrom_of_step hstep (ne_nil_of_peelStrength hfront))

/-- A group key with anything but one nullable mark behind its parentheses is terminal as it is. -/
theorem terminal_of_behind (h : TypeExpr.parse type = .ok e) (hs : e.sequence = false)
    (hr : e.relation? = none) {outer middle : Bool} {bare inside inside' behind : List Char}
    (htext : peelNullable (Text.trim type.toList) = (outer, bare))
    (hgroup : splitGroupKey bare = some (inside', middle))
    (htype : Text.trim type.toList = '(' :: (inside ++ ')' :: behind))
    (hpartner : Bracket.partnerAfter 0 (inside ++ ')' :: behind) = some (inside, behind))
    (hne : behind ≠ []) (hmark : behind ≠ ['?']) : Terminal (nake storedMask type) := by
  have hsplit := splitGroupKey_of_partnerAfter hpartner hne hmark
  have hfrom : nakeFrom storedMask (Text.trim type.toList) = Text.trim type.toList := by
    refine nakeFrom_of_none ?_
    rw [htype, nakeOnce_storedMask, nakeMark_of_ne (by decide), nakeGroup, hsplit]
    rfl
  have hnake : nake storedMask type = Text.trimmed type := by rw [nake, hfrom, Text.trimmed]
  have hstop : nake storedMask (Text.trimmed type) = Text.trimmed type := by
    rw [nake, Text.trimmed, String.toList_ofList, Text.trim_trim, hfrom]
  have hnull : isNullable (Text.trimmed type) = true := by
    obtain ⟨-, -, blanks, -, hnone, hsame⟩ := eq_of_peelNullable (Text.trimEnd_trim _) htext
    cases outer with
    | true =>
      rw [isNullable, Text.trimmed, String.toList_ofList, Text.trim_trim, hsame, if_pos rfl,
        List.getLast?_concat]
      rfl
    | false =>
      -- the whole would be a group key that is stripped
      rw [hnone rfl, if_neg Bool.false_ne_true, List.append_nil, List.append_nil] at hsame
      rw [← hsame, htype, hsplit] at hgroup
      cases hgroup
  rw [hnake]
  exact .grouped (parse_trimmed h) hs hr hstop hnull

/-- **An annotation that is neither a sequence nor a relation is stripped down to a terminal
text.** -/
theorem terminal_nake (h : TypeExpr.parse type = .ok e) (hs : e.sequence = false)
    (hr : e.relation? = none) : Terminal (nake storedMask type) := by
  have hread := parseBalanced_of_parse h
  obtain ⟨flags, rest, hp⟩ := exists_peel_of_parseBalanced hread
  have hpeeled := peeled_of_peel hp
  rw [Text.trim_trim] at hpeeled
  obtain ⟨⟨c, after, rfl, hstar, hparen⟩, -⟩ := ends_of_parseBalanced hp hread
  have hrelation := ne_of_relation? hp hread hr
  cases hpeeled with
  | plain htext hrest =>
    have hfront : (peelStrength false false (peelNullable (Text.trim type.toList)).2).2.2 =
        c :: after := by
      rw [htext]
      exact congrArg Prod.snd hrest
    exact terminal_of_front hstar hparen hrelation (Text.trim_trim _)
      (exists_of_peelNullable (Text.trimEnd_trim _) hfront) rfl
  | primary htext hrest =>
    obtain ⟨behind, htype, hbehind, -⟩ := peelNullable_of_key (Text.trimEnd_trim _) htext
    have hmarked := (eq_of_peelNullable (Text.trimEnd_trim behind) hbehind).1
    obtain ⟨front, hfront⟩ : ∃ after, (peelStrength false false (Text.trim behind)).2.2 =
        c :: after := by
      obtain ⟨after, hafter⟩ := exists_of_peelNullable hmarked (congrArg Prod.snd hrest)
      exact exists_of_peelNullable (Text.trimEnd_trim behind) (by rwa [hbehind])
    refine terminal_of_step hstar hparen hrelation (Text.trim_trim behind) hfront ?_
    rw [htype]
    exact nakeOnce_primary rfl behind
  | @group _ _ _ inside htext hgroup hrest =>
    obtain ⟨inner, hinner⟩ :=
      exists_of_peelNullable (Text.trimEnd_trim inside) (congrArg Prod.snd hrest)
    obtain ⟨behind, htype, hpartner, -, ⟨rfl, -⟩ | ⟨rfl, -⟩ | ⟨hne, hmark, -⟩⟩ :=
      exists_behind_of_group h htext hgroup
    · refine terminal_of_step hstar hparen hrelation (Text.trim_trim inside) hinner ?_
      rw [htype]
      exact nakeOnce_group rfl (nakeGroup_of_enclosed hpartner)
    · have htrim := Text.trim_concat_of_trim (c := '?') (by decide) (Text.trim_trim inside)
      have hfront := peelStrength_append hinner ['?']
      refine terminal_of_step hstar hparen hrelation htrim hfront ?_
      rw [htype]
      exact nakeOnce_group rfl (nakeGroup_of_marked hpartner)
    · exact terminal_of_behind h hs hr htext hgroup htype hpartner hne hmark

/-- **Root types are terminal**, whatever links the chain has passed. -/
theorem terminal_of_rootFrom {visited : List (String × String)}
    (h : ss.rootFrom visited type = .ok root) : Terminal root := by
  induction hremaining : Walk.remaining ss.links visited using Nat.strongRecOn
    generalizing visited type root with
  | ind n ih =>
    obtain ⟨e, hparse, hrooted⟩ := rootedAt_of_rootFrom h
    cases hrooted with
    | sequence hs hroot =>
      rw [hroot]
      exact terminal_int e.nullable
    | plain hs hr hroot =>
      rw [hroot]
      exact terminal_nake hparse hs hr
    | link hs hr hc hnew hinner hroot =>
      -- the chain goes on with one link less to pass
      have hlt := Walk.remaining_lt (mem_links_of_linked hc) hnew
        (fun _ hx => List.mem_append_left [_] hx)
        (List.mem_append_right visited (List.mem_singleton_self _))
      have hterminal := ih _ (hremaining ▸ hlt) hinner rfl
      rw [hroot]
      split
      · exact hterminal.makeNullable
      · exact hterminal

/-- **A root type that is read is its own root type.** -/
theorem rootFrom_root {visited : List (String × String)}
    (h : ss.rootFrom visited type = .ok root) (hparse : TypeExpr.parse root = .ok e)
    (visited' : List (String × String)) : ss.rootFrom visited' root = .ok root := by
  obtain ⟨hs, hr, hstop⟩ := (terminal_of_rootFrom h).plain hparse
  rw [rootFrom, hparse]
  dsimp only
  rw [hs, if_neg Bool.false_ne_true]
  split
  · rw [hstop]
  · rename_i t ht
    cases ht.symm.trans hr

end Schemas

end TypedSheets
