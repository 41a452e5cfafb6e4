import TypedSheets.Proofs.TypeExpr.RoundTrip
import TypedSheets.Session.RootType

/-!
# Types inside annotations

The annotations that stand inside an annotation are at most half as many as the characters of the
text that it is read from. The stored type of one of them has the same annotations inside: stripping
the marks off a canonical text leaves the canonical text of the bare type.

## Main definitions

* `TypeExpr.inner` — the annotations inside an annotation, through all layers.
* `TypeExpr.components` — those of the first layer.
* `TypeExpr.unkeyed` — the annotation without the mark of a key.

## Main results

* `TypeExpr.length_inner_lt` — how many there can be.
* `TypeExpr.nake_storedMask`, `TypeExpr.nake_key` — the canonical text that is left of a canonical
  text.
* `TypeExpr.makeNullable_text` — the canonical text with a nullable mark.
-/

namespace TypedSheets

namespace TypeExpr

/-! ### Inner annotations -/

/-- The annotations inside an annotation, through all layers. -/
def inner : TypeExpr → List TypeExpr
  | array _ e | geometry _ _ e => e :: e.inner
  | map _ k v => k :: k.inner ++ v :: v.inner
  | _ => []

theorem inner_withFlags (a : TypeExpr) (flags : Flags) : (a.withFlags flags).inner = a.inner := by
  cases a <;> rfl

/-- What is inside an inner annotation is inside. -/
theorem mem_inner_trans {a b c : TypeExpr} (hb : b ∈ a.inner) (hc : c ∈ b.inner) : c ∈ a.inner := by
  induction a with
  | primitive f p => cases hb
  | enum f name => cases hb
  | relation f t => cases hb
  | array f e ih | geometry f shape e ih =>
    simp only [inner, List.mem_cons] at hb ⊢
    rcases hb with rfl | hb
    · exact .inr hc
    · exact .inr (ih hb)
  | map f k v ihk ihv =>
    simp only [inner, List.mem_append, List.mem_cons] at hb ⊢
    rcases hb with (rfl | hb) | (rfl | hb)
    · exact .inl (.inr hc)
    · exact .inl (.inr (ihk hb))
    · exact .inr (.inr hc)
    · exact .inr (.inr (ihv hb))

/-- The annotations that an annotation is put together from. -/
def components : TypeExpr → List TypeExpr
  | array _ e | geometry _ _ e => [e]
  | map _ k v => [k, v]
  | _ => []

theorem components_withFlags (e : TypeExpr) (f : Flags) :
    (e.withFlags f).components = e.components := by
  cases e <;> rfl

theorem mem_inner_of_components {a b : TypeExpr} (h : b ∈ a.components) : b ∈ a.inner := by
  cases a with
  | primitive f p => cases h
  | enum f name => cases h
  | relation f t => cases h
  | array f e | geometry f shape e =>
    cases List.mem_singleton.1 h
    exact List.mem_cons_self ..
  | map f k v =>
    rcases List.mem_cons.1 h with rfl | h
    · exact List.mem_append_left _ (List.mem_cons_self ..)
    · cases List.mem_singleton.1 h
      exact List.mem_append_right _ (List.mem_cons_self ..)

theorem isWellFormed_of_mem_inner {a b : TypeExpr} (ha : a.isWellFormed = true)
    (hb : b ∈ a.inner) : b.isWellFormed = true := by
  induction a with
  | primitive f p => cases hb
  | enum f name => cases hb
  | relation f t => cases hb
  | array f e ih | geometry f shape e ih =>
    rcases List.mem_cons.1 hb with rfl | hb
    · exact ha
    · exact ih ha hb
  | map f k v ihk ihv =>
    simp only [isWellFormed, Bool.and_eq_true] at ha
    simp only [inner, List.mem_append, List.mem_cons] at hb
    rcases hb with (rfl | hb) | (rfl | hb)
    · exact ha.1
    · exact ihk ha.1 hb
    · exact ha.2
    · exact ihv ha.2 hb

/-- Each layer of an annotation takes two characters at least, and three around two parts. -/
theorem length_inner_of_parseBalanced {whole : String} {text : List Char} {e : TypeExpr}
    (h : parseBalanced whole text = .ok e) : 2 * e.inner.length < text.length := by
  induction e generalizing text with
  | primitive f p => exact List.length_pos_of_ne_nil (readFrom_of_parseBalanced h).1
  | enum f name => exact List.length_pos_of_ne_nil (readFrom_of_parseBalanced h).1
  | relation f t => exact List.length_pos_of_ne_nil (readFrom_of_parseBalanced h).1
  | array f e ih =>
    obtain ⟨-, inside, hinside, he⟩ := readFrom_of_parseBalanced h
    have := ih he
    rw [inner, List.length_cons]
    omega
  | map f k v ihk ihv =>
    obtain ⟨-, key, value, hparts, hk, hv⟩ := readFrom_of_parseBalanced h
    have hkey := ihk hk
    have hvalue := ihv hv
    rw [inner, List.length_append, List.length_cons, List.length_cons]
    omega
  | geometry f shape e ih =>
    obtain ⟨-, ⟨rfl, hname⟩ | ⟨element, helement, he⟩⟩ := readFrom_of_parseBalanced h
    · exact (show 2 * 1 < text.length by omega)
    · have := ih he
      rw [inner, List.length_cons]
      omega

/-- The annotations inside what a text is read as are at most half as many as its characters. -/
theorem length_inner_lt {text : String} {e : TypeExpr} (h : parse text = .ok e) :
    2 * e.inner.length < text.length := by
  unfold parse parse? at h
  dsimp only at h
  have htrim := Text.length_trim_le text.toList
  rw [String.length_toList] at htrim
  split at h
  · cases h
  · split at h
    · cases h
    · cases hb : parseBalanced text (Text.trim text.toList) with
      | error fault =>
        rw [hb] at h
        cases h
      | ok a =>
        rw [hb] at h
        cases h
        have := length_inner_of_parseBalanced hb
        omega

/-! ### Stored types of canonical texts -/

section Naking

open Schemas (storedMask)

variable {body : List Char}

theorem nakeFrom_of_step {mask : Modifiers} {text next : List Char}
    (h : nakeOnce mask text = some next) (hne : next ≠ []) :
    nakeFrom mask text = nakeFrom mask next := by
  rw [nakeFrom]
  split
  · rename_i next' hnext
    rw [h] at hnext
    cases hnext
    rw [if_neg (by simpa using hne)]
  · rename_i hnone
    rw [h] at hnone
    cases hnone

theorem nakeFrom_of_none {mask : Modifiers} {text : List Char} (h : nakeOnce mask text = none) :
    nakeFrom mask text = text := by
  rw [nakeFrom]
  split
  · rename_i hnext
    rw [h] at hnext
    cases hnext
  · rfl

theorem nakeMark_self (mark : Char) (rest : List Char) :
    nakeMark mark (mark :: rest) = some (Text.trim rest) := by
  simp [nakeMark, Text.stripPrefix]

theorem nakeMark_of_ne {mark c : Char} (h : c ≠ mark) (rest : List Char) :
    nakeMark mark (c :: rest) = none := by
  simp [nakeMark, Text.stripPrefix, h.symm]

theorem nakeGroup_of_ne {c : Char} (h : c ≠ '(') (rest : List Char) :
    nakeGroup (c :: rest) = none := by
  rw [nakeGroup, splitGroupKey_of_ne h]
  rfl

/-- The mark of a primary key is stripped first, by every set that asks for it. -/
theorem nakeOnce_primary {mask : Modifiers} (h : mask.primary = true) (rest : List Char) :
    nakeOnce mask ('*' :: rest) = some (Text.trim rest) := by
  simp only [nakeOnce, nakeSteps, List.findSome?_cons, h, if_true, nakeMark_self]

/-- The parentheses of a group key are stripped first, by every set that asks for it. -/
theorem nakeOnce_group {mask : Modifiers} (h : mask.group = true) {text next : List Char}
    (hnext : nakeGroup ('(' :: text) = some next) : nakeOnce mask ('(' :: text) = some next := by
  have hmark : nakeMark '*' ('(' :: text) = none := nakeMark_of_ne (by decide) text
  simp only [nakeOnce, nakeSteps, List.findSome?_cons, hmark, ite_self, h, if_true, hnext]

/-- The steps that strip a text down to its stored type: all but that of the nullable mark. -/
theorem nakeOnce_storedMask (text : List Char) :
    nakeOnce storedMask text = (nakeMark '*' text).or ((nakeGroup text).or
      ((nakeMark '!' text).or ((nakeMark '~' text).or (nakeMark '$' text)))) := by
  have hsteps : nakeSteps storedMask = [(true, nakeMark '*'), (true, nakeGroup),
      (true, nakeMark '!'), (true, nakeMark '~'), (true, nakeMark '$'), (false, nakeNullable)] :=
    rfl
  simp only [nakeOnce, hsteps, List.findSome?_cons, if_true]
  cases nakeMark '*' text <;> cases nakeGroup text <;> cases nakeMark '!' text <;>
    cases nakeMark '~' text <;> cases nakeMark '$' text <;> rfl

/-- The strong and sequence marks are stripped from a bare text that is no relation. -/
theorem nakeFrom_innerText (h : Bare body) (hrelation : ∀ rest, body ≠ '$' :: rest)
    (flags : Flags) : nakeFrom storedMask (innerText flags body) =
      innerText { nullable := flags.nullable } body := by
  obtain ⟨nullable, key, strong, sequence⟩ := flags
  have hne (flags : Flags) : innerText flags body ≠ [] := by
    obtain ⟨c, rest, hstart, -⟩ := h.inner_starts flags
    simp [hstart]
  have hmark {c : Char} (hc : c ∈ ['!', '~']) (flags : Flags) :
      nakeFrom storedMask (c :: innerText flags body) =
        nakeFrom storedMask (innerText flags body) := by
    refine nakeFrom_of_step ?_ (hne flags)
    simp only [List.mem_cons, List.not_mem_nil, or_false] at hc
    rcases hc with rfl | rfl
    · rw [nakeOnce_storedMask, nakeMark_of_ne (by decide), nakeGroup_of_ne (by decide),
        nakeMark_self, trim_innerText h]
      rfl
    · rw [nakeOnce_storedMask, nakeMark_of_ne (by decide), nakeGroup_of_ne (by decide),
        nakeMark_of_ne (by decide), nakeMark_self, trim_innerText h]
      rfl
  have hplain : nakeFrom storedMask (innerText { nullable } body) =
      innerText { nullable } body := by
    obtain ⟨c, rest, rfl, -, hc⟩ := h.starts
    simp only [List.mem_cons, List.not_mem_nil, or_false, not_or] at hc
    have hdollar : c ≠ '$' := by
      rintro rfl
      exact hrelation rest rfl
    refine nakeFrom_of_none ?_
    show nakeOnce storedMask (c :: (rest ++ _)) = none
    rw [nakeOnce_storedMask, nakeMark_of_ne hc.2.2.1, nakeGroup_of_ne hc.2.2.2,
      nakeMark_of_ne hc.1, nakeMark_of_ne hc.2.1, nakeMark_of_ne hdollar]
    rfl
  have hsequence : nakeFrom storedMask (innerText { nullable, sequence } body) =
      innerText { nullable } body := by
    cases sequence with
    | true => exact (hmark (c := '~') (by decide) { nullable }).trans hplain
    | false => exact hplain
  cases strong with
  | true => exact (hmark (c := '!') (by decide) { nullable, sequence }).trans hsequence
  | false => exact hsequence

/-- The text of a well-formed annotation without its outermost marks starts with `$` only if it is a
relation. -/
theorem kindChars_ne_of_relation? {e : TypeExpr} (h : e.isWellFormed = true)
    (hrelation : e.relation? = none) (rest : List Char) : e.kindChars ≠ '$' :: rest := by
  intro hstart
  have hword {text : List Char} (hw : ∀ c ∈ text, Text.isWordChar c = true) :
      text ≠ '$' :: rest := by
    rintro rfl
    exact absurd (hw '$' (List.mem_cons_self ..)) (by decide)
  cases e with
  | primitive f p => exact hword isWordChar_of_name hstart
  | array f e => cases hstart
  | map f k v => cases hstart
  | enum f name => exact hword (isWordChar_of_isEnumName h).2 hstart
  | geometry f shape e => cases shape <;> cases hstart
  | relation f t => cases hrelation

/-- The mark of a key is stripped off a canonical text first, by every set that asks for it. -/
theorem nakeFrom_chars {mask : Modifiers} (hprimary : mask.primary = true)
    (hgroup : mask.group = true) {e : TypeExpr} (h : e.isWellFormed = true) :
    nakeFrom mask e.chars = nakeFrom mask (innerText e.flags e.kindChars) := by
  have hbare := bare_kindChars h
  have htrim := trim_innerText hbare e.flags
  have hne : innerText e.flags e.kindChars ≠ [] := by
    obtain ⟨c, rest, hstart, -⟩ := hbare.inner_starts e.flags
    simp [hstart]
  rw [chars_eq_mark, mark_eq]
  cases e.flags.key with
  | none => rfl
  | primary =>
    refine nakeFrom_of_step ?_ hne
    rw [nakeOnce_primary hprimary, htrim]
  | group =>
    have hnext : nakeGroup ('(' :: (innerText e.flags e.kindChars ++ [')'])) =
        some (innerText e.flags e.kindChars) := by
      rw [nakeGroup, ← List.cons_append,
        splitGroupKey_enclose (matched_innerText e.flags (matched_kindChars h))]
      simp only [Option.map_some, Bool.false_eq_true, if_false, htrim]
    exact nakeFrom_of_step (nakeOnce_group hgroup hnext) hne

/-- **Stripping a canonical text down to its stored type leaves a canonical text**, that of the
annotation without its flags but the nullable one. -/
theorem nake_storedMask {e : TypeExpr} (h : e.isWellFormed = true)
    (hrelation : e.relation? = none) :
    nake storedMask e.text = (e.withFlags { nullable := e.nullable }).text := by
  have hinner := nakeFrom_innerText (bare_kindChars h) (kindChars_ne_of_relation? h hrelation)
    e.flags
  have htarget : (e.withFlags { nullable := e.nullable }).chars =
      innerText { nullable := e.flags.nullable } e.kindChars := by
    rw [chars_eq_mark, mark_eq]
    cases e <;> rfl
  rw [nake, text, text, String.toList_ofList, trim_chars h, htarget, nakeFrom_chars rfl rfl h,
    hinner]

/-- The annotation without the mark of a key. -/
def unkeyed (e : TypeExpr) : TypeExpr :=
  e.withFlags { e.flags with key := .none }

theorem isWellFormed_withFlags (e : TypeExpr) (flags : Flags) :
    (e.withFlags flags).isWellFormed = e.isWellFormed := by
  cases e <;> rfl

/-- The text of an annotation that is no key. -/
theorem chars_withFlags {e : TypeExpr} {flags : Flags} (h : flags.key = .none) :
    (e.withFlags flags).chars = innerText flags e.kindChars := by
  have hflags : (e.withFlags flags).flags = flags := by cases e <;> rfl
  have hkind : (e.withFlags flags).kindChars = e.kindChars := by cases e <;> rfl
  rw [chars_eq_mark, mark_eq, hflags, hkind, h]

/-- The steps that strip the marks of keys off a text. -/
theorem nakeOnce_key (text : List Char) :
    nakeOnce .key text = (nakeMark '*' text).or (nakeGroup text) := by
  have hsteps : nakeSteps .key = [(true, nakeMark '*'), (true, nakeGroup),
      (false, nakeMark '!'), (false, nakeMark '~'), (false, nakeMark '$'),
      (false, nakeNullable)] :=
    rfl
  simp only [nakeOnce, hsteps, List.findSome?_cons, if_true]
  cases nakeMark '*' text <;> cases nakeGroup text <;> rfl

/-- **Stripping the marks of keys off a canonical text leaves a canonical text**, that of the
annotation without them. -/
theorem nake_key {e : TypeExpr} (h : e.isWellFormed = true) :
    nake .key e.text = e.unkeyed.text := by
  have htarget : e.unkeyed.chars = innerText e.flags e.kindChars := chars_withFlags rfl
  obtain ⟨c, rest, hstart, -, hstar, hparen⟩ := (bare_kindChars h).inner_starts e.flags
  have hstop : nakeFrom .key (innerText e.flags e.kindChars) =
      innerText e.flags e.kindChars := by
    refine nakeFrom_of_none ?_
    rw [hstart, nakeOnce_key, nakeMark_of_ne hstar, nakeGroup_of_ne hparen]
    rfl
  rw [nake, text, text, String.toList_ofList, trim_chars h, htarget, nakeFrom_chars rfl rfl h,
    hstop]

/-- A nullable mark on the canonical text of an annotation that is no key leaves a canonical text,
that of the annotation that allows empty cells. -/
theorem makeNullable_text {e : TypeExpr} {flags : Flags} (h : e.isWellFormed = true)
    (hkey : flags.key = .none) :
    makeNullable (e.withFlags flags).text =
      (e.withFlags { flags with nullable := true }).text := by
  have hbare := bare_kindChars h
  have htrim : Text.trim (e.withFlags flags).text.toList = innerText flags e.kindChars := by
    rw [text, String.toList_ofList, trim_chars (by rwa [isWellFormed_withFlags]),
      chars_withFlags hkey]
  have htarget : (e.withFlags { flags with nullable := true }).chars =
      strengthMarks flags ++ e.kindChars ++ ['?'] := chars_withFlags hkey
  rw [makeNullable, isNullable, Text.trimmed, htrim]
  cases hn : flags.nullable with
  | true =>
    have hsame : { flags with nullable := true } = flags := by
      rw [← hn]
    have hlast : (innerText flags e.kindChars).getLast? = some '?' := by
      rw [innerText, hn]
      exact List.getLast?_concat
    rw [hlast, hsame]
    rfl
  | false =>
    obtain ⟨before, c, hend, -, hc⟩ := hbare.strength_ends flags
    have hplain : innerText flags e.kindChars = strengthMarks flags ++ e.kindChars := by
      rw [innerText, hn]
      exact List.append_nil _
    have hlast : (strengthMarks flags ++ e.kindChars).getLast? = some c := by
      rw [hend]
      exact List.getLast?_concat
    rw [hplain, hlast, if_neg (by simpa using hc), text, htarget]
    exact String.ofList_append.symm

end Naking

end TypeExpr

end TypedSheets
