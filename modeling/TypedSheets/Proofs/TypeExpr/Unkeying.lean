import TypedSheets.Proofs.Text.Pieces
import TypedSheets.Proofs.TypeExpr.Inner

/-!
# Keys stripped off annotations

The mark of a primary key is stripped off an annotation as it is written, not off its canonical
text: there may be blanks between the marks, and a nullable mark may stand behind the whole or
behind the bare type. What is left is read as the annotation without the mark of the key, if it is
read at all; with nullable marks at both places it is not.

## Main results

* `TypeExpr.parseBalanced_congr` — what is read depends on the marks and on the text behind them.
* `TypeExpr.eq_unkeyed_of_parse` — what is read when the mark of a key is stripped off.
* `TypeExpr.nake_storedMask_nake_key` — stripping off the mark of a key first changes no stored
  type.
-/

namespace TypedSheets

/-! ### Texts that cannot be read -/

open Bracket in
/-- The partner of a bracket is a closing bracket. -/
theorem Bracket.eq_of_partnerAfter {pending : Nat} {text inside after : List Char}
    (h : partnerAfter pending text = some (inside, after)) :
    ∃ c, isClosing c = true ∧ text = inside ++ c :: after := by
  induction text generalizing pending inside with
  | nil => simp [partnerAfter] at h
  | cons d text ih =>
    have hstep {p : Nat} (h : (partnerAfter p text).map
        (fun (x : List Char × List Char) => (d :: x.1, x.2)) = some (inside, after)) :
        ∃ c, isClosing c = true ∧ d :: text = inside ++ c :: after := by
      obtain ⟨⟨i, a⟩, hp, he⟩ := Option.map_eq_some_iff.1 h
      cases he
      obtain ⟨c, hc, htext⟩ := ih hp
      exact ⟨c, hc, congrArg (d :: ·) htext⟩
    unfold partnerAfter at h
    split at h
    · exact hstep h
    · split at h
      · rename_i hclosing
        split at h
        · cases h
          exact ⟨d, hclosing, rfl⟩
        · exact hstep h
      · exact hstep h

namespace Form

open Bracket

/-- No kind starts with the mark of a key. -/
theorem ofText_of_mark {c : Char} (h : c = '*' ∨ c = '(') (rest : List Char) :
    ofText (c :: rest) = unknown := by
  have hword : Text.isWordChar c = false := by rcases h with rfl | rfl <;> decide
  have hmem : c ∈ c :: rest := List.mem_cons_self
  have hname := Primitive.ofName?_of_mem hmem hword
  have hgeometry : geometry? (c :: rest) = none := by rcases h with rfl | rfl <;> rfl
  have hident := Text.isIdentifier_of_mem hmem hword
  have hne (d : Char) (hd : d ∉ ['*', '(']) : c ≠ d := by
    rintro rfl
    exact hd (by simpa using h)
  rw [ofText_of_ne (hne '$' (by decide)), hname, enclosed_of_ne (hne '[' (by decide)),
    enclosed_of_ne (hne '{' (by decide)), hgeometry, hident]
  rfl

theorem getLast?_of_enclosed {opening : Char} {text inside : List Char}
    (h : enclosed opening text = some inside) :
    ∃ c, isClosing c = true ∧ text.getLast? = some c := by
  unfold enclosed at h
  split at h
  · cases h
  · split at h
    · split at h
      · rename_i heq
        obtain ⟨c, hc, htext⟩ := eq_of_partnerAfter heq
        exact ⟨c, hc, by rw [htext, ← List.cons_append, List.getLast?_concat]⟩
      · cases h
    · cases h

theorem getLast?_of_angled (start : List Char) {text inside : List Char}
    (h : angled text = some inside) :
    (start ++ text).getLast? = some '>' ∨ text = [] := by
  unfold angled at h
  split at h
  · exact .inr rfl
  · rename_i rest
    obtain ⟨body, hbody, -⟩ := Option.bind_eq_some_iff.1 h
    left
    rw [Text.eq_append_of_stripSuffix hbody, ← List.cons_append, ← List.append_assoc,
      List.getLast?_concat]
  · cases h

/-- No kind but a relation ends with a nullable mark. -/
theorem ofText_of_getLast? {c : Char} (hc : c ≠ '$') {rest : List Char}
    (h : (c :: rest).getLast? = some '?') : ofText (c :: rest) = unknown := by
  have hmem : '?' ∈ c :: rest := List.mem_of_getLast? h
  have hname := Primitive.ofName?_of_mem hmem (by decide)
  have henclosed (opening : Char) : enclosed opening (c :: rest) = none := by
    cases he : enclosed opening (c :: rest) with
    | none => rfl
    | some inside =>
      obtain ⟨d, hd, hlast⟩ := getLast?_of_enclosed he
      cases h.symm.trans hlast
      cases hd
  have hgeometry : geometry? (c :: rest) = none := by
    unfold geometry?
    rw [List.findSome?_eq_none_iff]
    intro shape _
    cases hstrip : Text.stripPrefix shape.name.toList (c :: rest) with
    | none => rfl
    | some text =>
      rw [Option.bind_some, Option.map_eq_none_iff]
      cases hangled : angled text with
      | none => rfl
      | some inside =>
        rw [eq_append_of_stripPrefix hstrip] at h
        rcases getLast?_of_angled shape.name.toList hangled with hlast | rfl
        · cases h.symm.trans hlast
        · rw [List.append_nil] at h
          cases shape <;> cases h
  have hident := Text.isIdentifier_of_mem hmem (by decide)
  rw [ofText_of_ne hc, hname, henclosed, henclosed, hgeometry, hident]
  rfl

end Form

/-- The target of a relation has no marks in it. -/
theorem Target.not_mem_of_ofChars? {text : List Char} {t : Target} (h : ofChars? text = some t) :
    '?' ∉ text := by
  have hident {word : List Char} (hword : Text.isIdentifier word = true) : '?' ∉ word := by
    intro hmem
    cases hword.symm.trans (Text.isIdentifier_of_mem hmem (by decide))
  unfold ofChars? at h
  split at h
  · split at h
    · rename_i hword
      exact hident hword
    · cases h
  · rename_i table column hcut
    split at h
    · rename_i hwords
      rw [Bool.and_eq_true] at hwords
      rw [Text.eq_of_cutAt hcut, List.mem_append, List.mem_cons, not_or, not_or]
      exact ⟨hident hwords.1, by decide, hident hwords.2⟩
    · cases h

namespace TypeExpr

/-- What is read starts with no mark of a key and ends with no nullable mark, once its marks are
peeled off. -/
theorem ends_of_parseBalanced {whole : String} {text rest : List Char} {flags : Flags}
    {e : TypeExpr} (hp : peel whole text = .ok (flags, rest))
    (h : parseBalanced whole text = .ok e) :
    (∃ c after, rest = c :: after ∧ c ≠ '*' ∧ c ≠ '(') ∧ rest.getLast? ≠ some '?' := by
  have hread := readAs_of_parseBalanced hp h
  cases rest with
  | nil => cases hread
  | cons c rest =>
    refine ⟨⟨c, rest, rfl, ?_, ?_⟩, fun hlast => ?_⟩
    · rintro rfl
      rw [Form.ofText_of_mark (.inl rfl)] at hread
      cases hread
    · rintro rfl
      rw [Form.ofText_of_mark (.inr rfl)] at hread
      cases hread
    · by_cases hc : c = '$'
      · subst hc
        cases rest with
        | nil => cases hlast
        | cons d rest =>
          rw [Form.ofText] at hread
          cases hread with
          | relation ht =>
            refine Target.not_mem_of_ofChars? ht ?_
            rw [List.getLast?_cons_cons] at hlast
            obtain ⟨before, hbefore⟩ := List.getLast?_eq_some_iff.1 hlast
            rw [hbefore, Text.trim, Text.trimStart_concat (by decide),
              Text.trimEnd_concat (by decide)]
            simp
      · rw [Form.ofText_of_getLast? hc hlast] at hread
        cases hread

/-! ### What is read depends on -/

/-- The whole text is named in what is wrong, and makes no other difference. -/
theorem peel_congr {whole : String} {text : List Char} {p : Flags × List Char}
    (h : peel whole text = .ok p) (whole' : String) : peel whole' text = .ok p := by
  unfold peel peelKey at h ⊢
  dsimp only at h ⊢
  split at h
  · split at h
    · cases h
    · rename_i hprimary
      rw [if_neg hprimary]
      exact h
  · exact h

theorem flags_withFlags (e : TypeExpr) (flags : Flags) : (e.withFlags flags).flags = flags := by
  cases e <;> rfl

theorem withFlags_flags (e : TypeExpr) : e.withFlags e.flags = e := by
  cases e <;> rfl

/-- **What is read depends on the marks and on the text behind them.** Two texts that are the same
behind their marks are read as one annotation with the marks of each. -/
theorem parseBalanced_congr {whole whole' : String} {text text' rest : List Char}
    {flags flags' : Flags} {e : TypeExpr} (hp : peel whole text = .ok (flags, rest))
    (hp' : peel whole' text' = .ok (flags', rest)) (h : parseBalanced whole text = .ok e) :
    parseBalanced whole' text' = .ok (e.withFlags flags') := by
  induction hlength : text.length using Nat.strongRecOn
    generalizing text text' rest flags flags' e with
  | ind n ih =>
    have hle := length_peel_le hp
    have hpart {part : List Char} {a : TypeExpr} (hlt : part.length < rest.length)
        (ha : parseBalanced whole part = .ok a) : parseBalanced whole' part = .ok a := by
      obtain ⟨f, bare, hpeel⟩ := exists_peel_of_parseBalanced ha
      rw [ih part.length (by omega) hpeel (peel_congr hpeel whole') ha rfl,
        ← flags_of_parseBalanced hpeel ha, withFlags_flags]
    have hparts (part : List Char) (hpart : part ∈ (Form.ofText rest).parts) :
        part.length < rest.length := Form.ofText_parts hpart
    have hread := readAs_of_parseBalanced hp h
    refine parseBalanced_of_readAs hp' ?_
    generalize Form.ofText rest = form at hread hparts ⊢
    cases hread with
    | relation ht => exact .relation ht
    | primitive p => exact .primitive p
    | array he => exact .array (hpart (hparts _ (List.mem_singleton_self _)) he)
    | map hsplit hk hv =>
      have hinside := hparts _ (List.mem_singleton_self _)
      have hlengths := length_splitMapEntry hsplit
      exact .map hsplit (hpart (by omega) hk) (hpart (by omega) hv)
    | bareGeometry hempty => exact .bareGeometry hempty
    | geometry hempty he =>
      exact .geometry hempty (hpart (hparts _ (List.mem_singleton_self _)) he)
    | enum name => exact .enum name

/-! ### Peeling the mark of a key -/

/-- How the marks of an annotation are peeled off, by the key that it is. -/
inductive Peeled (text : List Char) (flags : Flags) (rest : List Char) : Prop
  /-- There is no mark of a key. -/
  | plain {outer : Bool} {bare : List Char} (htext : peelNullable text = (outer, bare))
    (hrest : peelRest outer .none bare = (flags, rest))
  /-- The mark of a primary key is behind the outer nullable mark. -/
  | primary {outer : Bool} {marked : List Char} (htext : peelNullable text = (outer, '*' :: marked))
    (hrest : peelRest (outer || (peelNullable (Text.trimStart marked)).1) .primary
      (peelNullable (Text.trimStart marked)).2 = (flags, rest))
  /-- The marks of a group key are behind the outer nullable mark and may have one behind them. -/
  | group {outer middle : Bool} {bare inside : List Char} (htext : peelNullable text = (outer, bare))
    (hgroup : splitGroupKey bare = some (inside, middle))
    (hrest : peelRest (outer || middle || (peelNullable (Text.trim inside)).1) .group
      (peelNullable (Text.trim inside)).2 = (flags, rest))

theorem peeled_of_peel {whole : String} {text rest : List Char} {flags : Flags}
    (h : peel whole text = .ok (flags, rest)) : Peeled (Text.trim text) flags rest := by
  unfold peel at h
  dsimp only at h
  generalize hpeeled : peelNullable (Text.trim text) = peeled at h
  obtain ⟨outer, bare⟩ := peeled
  unfold peelPrimary at h
  split at h
  · rename_i marked hstrip
    obtain rfl := Form.eq_append_of_stripPrefix hstrip
    unfold peelKey at h
    split at h
    · cases h
    · exact .primary hpeeled (Except.ok.inj h)
  · unfold peelKey at h
    split at h
    · rename_i inside middle hgroup
      exact .group hpeeled hgroup (Except.ok.inj h)
    · exact .plain hpeeled (Except.ok.inj h)

/-- Strong and sequence marks are all in front. -/
theorem peelRest_of_ne {c : Char} (h : c ≠ '!') (h' : c ≠ '~') (nullable : Bool) (key : KeyRole)
    (rest : List Char) :
    peelRest nullable key (c :: rest) = ({ nullable, key }, c :: rest) := by
  unfold peelRest
  rw [peelStrength]
  · rintro _ ⟨rfl, -⟩
    exact h rfl
  · rintro _ ⟨rfl, -⟩
    exact h' rfl

/-- What stands behind the marks of a key is no mark of a key, if what is read is none. -/
theorem exists_front_of_peelRest {rest bare : List Char} {nullable : Bool} {key : KeyRole}
    {flags : Flags} (h : peelRest nullable key bare = (flags, rest))
    (hends : ∃ c after, rest = c :: after ∧ c ≠ '*' ∧ c ≠ '(') :
    ∃ c body, bare = c :: body ∧ c ≠ '*' ∧ c ≠ '(' := by
  obtain ⟨d, after, rfl, hstar, hparen⟩ := hends
  cases bare with
  | nil =>
    have hnil : (peelStrength false false []).2.2 = d :: after := (Prod.mk.inj h).2
    rw [peelStrength] at hnil
    · cases hnil
    · rintro _ ⟨⟩
    · rintro _ ⟨⟩
  | cons c body =>
    -- a mark of a key would be left at the front of what is read
    have hne {k : Char} (hk : k = '*' ∨ k = '(') (hd : d ≠ k) : c ≠ k := by
      rintro rfl
      rw [peelRest_of_ne (by rcases hk with rfl | rfl <;> decide)
        (by rcases hk with rfl | rfl <;> decide)] at h
      exact hd (List.cons.inj (Prod.mk.inj h).2).1.symm
    exact ⟨c, body, rfl, hne (.inl rfl) hstar, hne (.inr rfl) hparen⟩

/-- A text that starts with no mark of a key has none. -/
theorem peel_of_front {text body : List Char} {c : Char} {nullable : Bool}
    (htrim : Text.trim text = text) (h : peelNullable text = (nullable, c :: body))
    (hstar : c ≠ '*') (hparen : c ≠ '(') (whole : String) :
    peel whole text = .ok (peelRest nullable .none (c :: body)) := by
  unfold peel
  rw [htrim, h]
  dsimp only
  rw [peelPrimary_of_ne hstar]
  dsimp only
  rw [peelKey, splitGroupKey_of_ne hparen]
  rfl

/-- Strong and sequence marks are not at the end. -/
theorem getLast?_peelStrength {text : List Char} (h : text.getLast? = some '?')
    (strong sequence : Bool) : (peelStrength strong sequence text).2.2.getLast? = some '?' := by
  have hrest {c : Char} {rest : List Char} (hc : c ≠ '?') (h : (c :: rest).getLast? = some '?') :
      (Text.trimStart rest).getLast? = some '?' := by
    obtain ⟨before, hbefore⟩ := List.getLast?_eq_some_iff.1 h
    cases before with
    | nil =>
      cases hbefore
      exact absurd rfl hc
    | cons d before =>
      rw [List.cons_append] at hbefore
      rw [(List.cons.inj hbefore).2, Text.trimStart_concat (by decide), List.getLast?_concat]
  fun_induction peelStrength strong sequence text with
  | case1 strong sequence rest hlt ih => exact ih (hrest (by decide) h)
  | case2 strong sequence rest hlt ih => exact ih (hrest (by decide) h)
  | case3 strong sequence text => exact h

/-- A nullable mark at the end is taken off. -/
theorem peelNullable_concat (text : List Char) :
    peelNullable (text ++ ['?']) = (true, Text.trimEnd text) := by
  simp [peelNullable, Text.stripSuffix]

/-- A text is what is left of it without the nullable mark at its end, blanks, and the mark. -/
theorem eq_of_peelNullable {text bare : List Char} {nullable : Bool}
    (htrim : Text.trimEnd text = text) (h : peelNullable text = (nullable, bare)) :
    Text.trimEnd bare = bare ∧ (nullable = false → bare.getLast? ≠ some '?') ∧
      ∃ blanks, (∀ c ∈ blanks, Text.isBlank c = true) ∧ (nullable = false → blanks = []) ∧
        text = bare ++ blanks ++ if nullable then ['?'] else [] := by
  unfold peelNullable at h
  split at h
  · rename_i before hstrip
    obtain ⟨rfl, rfl⟩ := Prod.mk.inj h
    obtain ⟨blanks, hblanks, hbefore⟩ := Text.exists_blanks before
    refine ⟨?_, nofun, blanks, hblanks, nofun, ?_⟩
    · exact List.rdropWhile_idempotent Text.isBlank before
    · rw [← hbefore, if_pos rfl]
      exact Text.eq_append_of_stripSuffix hstrip
  · rename_i hstrip
    obtain ⟨rfl, rfl⟩ := Prod.mk.inj h
    refine ⟨htrim, fun _ hlast => ?_, [], by simp, fun _ => rfl, by simp⟩
    rw [Text.stripSuffix, if_pos hlast] at hstrip
    cases hstrip

/-- A text starts as it does without its nullable mark. -/
theorem exists_cons_of_peelNullable {text inner : List Char} {c : Char}
    (htrim : Text.trimEnd text = text) (h : (peelNullable text).2 = c :: inner) :
    ∃ body, text = c :: body := by
  cases hpeeled : peelNullable text with
  | mk nullable bare =>
    obtain ⟨-, -, blanks, -, -, heq⟩ := eq_of_peelNullable htrim hpeeled
    obtain rfl : bare = c :: inner := by rwa [hpeeled] at h
    exact ⟨_, heq⟩

/-- A nullable mark behind the whole is one behind what follows the mark of a key. -/
theorem peelNullable_of_key {text marked : List Char} {outer : Bool}
    (htrim : Text.trimEnd text = text) (h : peelNullable text = (outer, '*' :: marked)) :
    ∃ after, text = '*' :: after ∧
      peelNullable (Text.trim after) = (outer, Text.trimStart marked) ∧
      Text.trimStart marked <+: Text.trim after := by
  have hstar (rest : List Char) : Text.trimEnd ('*' :: rest) = '*' :: Text.trimEnd rest := by
    rw [Text.trimEnd_cons]
    rfl
  unfold peelNullable at h
  split at h
  · rename_i before hstrip
    have htext := Text.eq_append_of_stripSuffix hstrip
    obtain ⟨rfl, hmarked⟩ := Prod.mk.inj h
    obtain ⟨blanks, hblanks⟩ := Text.prefix_trimEnd before
    rw [hmarked] at hblanks
    cases hblanks
    rw [List.cons_append, hstar] at hmarked
    have hmarked := (List.cons.inj hmarked).2
    have htrim' : Text.trim (marked ++ blanks ++ ['?']) =
        Text.trimStart (marked ++ blanks) ++ ['?'] := by
      rw [Text.trim, Text.trimStart_concat (by decide), Text.trimEnd_concat (by decide)]
    have hbody : Text.trimStart marked = Text.trimEnd (Text.trimStart (marked ++ blanks)) := by
      rw [← hmarked, Text.trimStart_trimEnd, hmarked]
      rfl
    refine ⟨marked ++ blanks ++ ['?'], htext, ?_, ?_⟩
    · rw [htrim', hbody]
      simp [peelNullable, Text.stripSuffix]
    · rw [htrim', hbody]
      exact (Text.prefix_trimEnd _).trans (List.prefix_append _ _)
  · rename_i hstrip
    obtain ⟨rfl, rfl⟩ := Prod.mk.inj h
    rw [hstar] at htrim
    have htrim' : Text.trim marked = Text.trimStart marked := by
      rw [← Text.trimStart_trimEnd, (List.cons.inj htrim).2]
    refine ⟨marked, rfl, ?_, htrim' ▸ List.prefix_rfl⟩
    have hlast : (Text.trimStart marked).getLast? ≠ some '?' := by
      intro hlast
      obtain ⟨blanks, hblanks⟩ := Text.suffix_trimStart marked
      obtain ⟨before, hbefore⟩ := List.getLast?_eq_some_iff.1 hlast
      rw [Text.stripSuffix, if_pos] at hstrip
      · cases hstrip
      · rw [← hblanks, hbefore, ← List.append_assoc, ← List.cons_append, List.getLast?_concat]
    rw [htrim', peelNullable, Text.stripSuffix, if_neg hlast]

/-- The text of an annotation that is a primary key: behind the mark of the key stands a text that
starts with neither mark of a key. -/
theorem exists_marked {type : String} {e : TypeExpr} (h : parse type = .ok e)
    (hkey : e.flags.key = .primary) :
    ∃ outer c body after rest, Text.trim type.toList = '*' :: after ∧ c ≠ '*' ∧ c ≠ '(' ∧
      peelNullable (Text.trim after) = (outer, c :: body) ∧ c :: body <+: Text.trim after ∧
      peel type (Text.trim type.toList) = .ok (e.flags, rest) ∧
      peelRest (outer || (peelNullable (c :: body)).1) .primary (peelNullable (c :: body)).2 =
        (e.flags, rest) := by
  have hread := parseBalanced_of_parse h
  obtain ⟨flags, rest, hp⟩ := exists_peel_of_parseBalanced hread
  obtain rfl := flags_of_parseBalanced hp hread
  obtain ⟨hends, -⟩ := ends_of_parseBalanced hp hread
  have hpeeled := peeled_of_peel hp
  rw [Text.trim_trim] at hpeeled
  obtain ⟨outer, marked, hpeel, hrest⟩ : ∃ outer marked,
      peelNullable (Text.trim type.toList) = (outer, '*' :: marked) ∧
      peelRest (outer || (peelNullable (Text.trimStart marked)).1) .primary
        (peelNullable (Text.trimStart marked)).2 = (e.flags, rest) := by
    cases hpeeled with
    | plain _ hrest => cases hkey.symm.trans (congrArg (·.1.key) hrest.symm)
    | primary htext hrest => exact ⟨_, _, htext, hrest⟩
    | group _ _ hrest => cases hkey.symm.trans (congrArg (·.1.key) hrest.symm)
  obtain ⟨after, htext, hafter, hfront⟩ := peelNullable_of_key (Text.trimEnd_trim _) hpeel
  obtain ⟨c, inner, hinner, hstar, hparen⟩ := exists_front_of_peelRest hrest hends
  -- what stands behind the mark of the key starts as it does without its nullable mark
  have hmarked := (eq_of_peelNullable (Text.trimEnd_trim after) hafter).1
  obtain ⟨body, hbody⟩ := exists_cons_of_peelNullable hmarked hinner
  rw [hbody] at hafter hfront hrest
  exact ⟨outer, c, body, after, _, htext, hstar, hparen, hafter, hfront, hp, hrest⟩

/-- The mark of a primary key is the first step of all that strips keys off. -/
theorem nakeFrom_key {mask : Modifiers} (hmask : mask.primary = true) {after body : List Char}
    {c : Char} (hfront : c :: body <+: Text.trim after) :
    nakeFrom mask ('*' :: after) = nakeFrom mask (Text.trim after) := by
  refine nakeFrom_of_step (nakeOnce_primary hmask after) ?_
  rintro hnil
  rw [hnil, List.prefix_nil] at hfront
  cases hfront

/-- The text that is left of a primary key without its mark. -/
theorem nake_key_of_marked {type : String} {after : List Char} {c : Char} {body : List Char}
    (htext : Text.trim type.toList = '*' :: after) (hstar : c ≠ '*') (hparen : c ≠ '(')
    (hfront : c :: body <+: Text.trim after) :
    nake .key type = String.ofList (Text.trim after) := by
  have hstop : nakeOnce .key (Text.trim after) = none := by
    obtain ⟨rest, hrest⟩ := hfront
    rw [← hrest, List.cons_append, nakeOnce_key, nakeMark_of_ne hstar, nakeGroup_of_ne hparen]
    rfl
  rw [nake, htext, nakeFrom_key rfl hfront, nakeFrom_of_none hstop]

/-- **What is left of a primary key without its mark is read as the annotation without it**, if it
is read at all. -/
theorem eq_unkeyed_of_parse {type : String} {e e' : TypeExpr} (h : parse type = .ok e)
    (hkey : e.flags.key = .primary) (h' : parse (nake .key type) = .ok e') : e' = e.unkeyed := by
  obtain ⟨outer, c, body, after, rest, htext, hstar, hparen, hafter, hfront, hp, hrest⟩ :=
    exists_marked h hkey
  have hread := parseBalanced_of_parse h'
  rw [nake_key_of_marked htext hstar hparen hfront, String.toList_ofList, Text.trim_trim] at hread
  generalize String.ofList (Text.trim after) = whole at hread
  have hpeel := peel_of_front (Text.trim_trim after) hafter hstar hparen whole
  have hinner : peelNullable (c :: body) = (false, c :: body) := by
    obtain ⟨-, hlast⟩ := ends_of_parseBalanced hpeel hread
    have hlast : (c :: body).getLast? ≠ some '?' := fun h =>
      hlast (getLast?_peelStrength h false false)
    rw [peelNullable, Text.stripSuffix, if_neg hlast]
  rw [hinner] at hrest
  obtain ⟨hflags, rfl⟩ := Prod.mk.inj hrest
  have hsame : parseBalanced whole (Text.trim after) =
      .ok (e.withFlags { e.flags with key := .none }) := by
    refine parseBalanced_congr hp ?_ (parseBalanced_of_parse h)
    rw [hpeel, ← hflags, Bool.or_false]
    rfl
  exact Except.ok.inj (hread.symm.trans hsame)

/-- **Stripping off the mark of a primary key first changes no stored type.** -/
theorem nake_storedMask_nake_key {type : String} {e : TypeExpr} (h : parse type = .ok e)
    (hkey : e.flags.key = .primary) :
    nake Schemas.storedMask (nake .key type) = nake Schemas.storedMask type := by
  obtain ⟨outer, c, body, after, rest, htext, hstar, hparen, -, hfront, -⟩ := exists_marked h hkey
  rw [nake_key_of_marked htext hstar hparen hfront, nake, nake, String.toList_ofList,
    Text.trim_trim, htext, nakeFrom_key rfl hfront]

end TypeExpr

end TypedSheets
