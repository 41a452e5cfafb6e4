import TypedSheets.Proofs.TypeExpr.Kinds
import TypedSheets.Proofs.TypeExpr.Peeling
import TypedSheets.Proofs.TypeExpr.Reading

/-!
# Annotations and their canonical texts

The canonical text of an annotation is read as the annotation, provided that the names in it can be
read at all: tables and columns are identifiers, and the name of an enum is an identifier that
spells nothing else. Reading gives only such annotations, so that two of them with one canonical
text are the same.

## Main results

* `TypeExpr.parse_text` — the canonical text of a well-formed annotation is read as the annotation.
* `TypeExpr.isWellFormed_of_parse` — what is read is well-formed.
* `TypeExpr.roundTrip` — canonical texts and well-formed annotations correspond.
-/

namespace TypedSheets

/-! ### Canonical texts -/

namespace TypeExpr

open Bracket

theorem bare_of_word {text : List Char} (hne : text ≠ [])
    (h : ∀ c ∈ text, Text.isWordChar c = true) : Bare text where
  starts := by
    obtain ⟨c, rest, rfl⟩ := List.exists_cons_of_ne_nil hne
    have hc := h c (List.mem_cons_self ..)
    refine ⟨c, rest, rfl, Text.isBlank_of_isWordChar hc, fun hmem => ?_⟩
    simp only [List.mem_cons, List.not_mem_nil, or_false] at hmem
    rcases hmem with rfl | rfl | rfl | rfl <;> cases hc
  ends := by
    refine ⟨text.dropLast, text.getLast hne, (List.dropLast_append_getLast hne).symm, ?_⟩
    have hc := h _ (List.getLast_mem hne)
    exact ⟨Text.isBlank_of_isWordChar hc, Text.ne_of_isWordChar hc (by decide)⟩

theorem plain_of_isWordChar {c : Char} (h : Text.isWordChar c = true) :
    isOpening c = false ∧ isClosing c = false ∧ c ≠ ':' := by
  refine ⟨?_, ?_, Text.ne_of_isWordChar h (by decide)⟩
  · by_contra ho
    simp only [isOpening, Bool.not_eq_false, Bool.or_eq_true, beq_iff_eq] at ho
    rcases ho with ((rfl | rfl) | rfl) | rfl <;> cases h
  · by_contra hc
    simp only [isClosing, Bool.not_eq_false, Bool.or_eq_true, beq_iff_eq] at hc
    rcases hc with ((rfl | rfl) | rfl) | rfl <;> cases h

theorem matched_of_word {text : List Char} (h : ∀ c ∈ text, Text.isWordChar c = true) :
    Matched false text :=
  .of_plain fun c hc => plain_of_isWordChar (h c hc)

theorem isWordChar_of_name {p : Primitive} : ∀ c ∈ p.name.toList, Text.isWordChar c = true :=
  Primitive.isWordChar_of_ofName? (Primitive.ofName?_name p)

theorem isWordChar_of_isEnumName {name : String} (h : isEnumName name = true) :
    name.toList ≠ [] ∧ ∀ c ∈ name.toList, Text.isWordChar c = true := by
  simp only [isEnumName, Bool.and_eq_true] at h
  obtain ⟨c, rest, hname, hword⟩ := Text.isWordChar_of_isIdentifier h.1.1
  exact ⟨by simp [hname], hword⟩

/-- The text of a well-formed annotation without its outermost marks has nothing to peel off. -/
theorem bare_kindChars {e : TypeExpr} (h : e.isWellFormed = true) : Bare e.kindChars := by
  cases e with
  | primitive f p =>
    have hne : p.name.toList ≠ [] := by cases p <;> decide
    exact bare_of_word hne isWordChar_of_name
  | array f e => exact ⟨⟨'[', _, rfl, by decide, by decide⟩, _, ']', rfl, by decide, by decide⟩
  | map f k v => exact ⟨⟨'{', _, rfl, by decide, by decide⟩, _, '}', rfl, by decide, by decide⟩
  | enum f name =>
    obtain ⟨hne, hword⟩ := isWordChar_of_isEnumName h
    exact bare_of_word hne hword
  | geometry f shape e =>
    refine ⟨?_, _, '>', rfl, by decide, by decide⟩
    cases shape <;> exact ⟨_, _, rfl, by decide, by decide⟩
  | relation f t =>
    obtain ⟨before, c, htext, hc⟩ := Target.text_ends (show t.isWellFormed = true from h)
    exact ⟨⟨'$', _, rfl, by decide, by decide⟩, '$' :: before, c, congrArg ('$' :: ·) htext,
      Text.isBlank_of_isWordChar hc, Text.ne_of_isWordChar hc (by decide)⟩

/-- The text between the braces of a map. -/
theorem matched_entry {key value : List Char} (hk : Matched false key) (hv : Matched false value) :
    Matched true (key ++ ':' :: value) :=
  hk.allow.append (.plain (by decide) (by decide) (fun _ => rfl) hv.allow)

/-- The brackets of a canonical text without its outermost marks match, if those of its parts do. -/
theorem matched_chars {e : TypeExpr} (h : e.isWellFormed = true) : Matched false e.chars := by
  induction e with
  | primitive f p => exact matched_mark f (matched_of_word isWordChar_of_name)
  | array f e ih => exact matched_mark f (.enclose (by decide) (by decide) (by decide) (ih h).allow)
  | map f k v ihk ihv =>
    simp only [isWellFormed, Bool.and_eq_true] at h
    refine matched_mark f ?_
    have hentry := matched_entry (ihk h.1) (ihv h.2)
    have hmap : Matched false ('{' :: (k.chars ++ ':' :: v.chars) ++ ['}']) :=
      .enclose (by decide) (by decide) (by decide) hentry
    simpa using hmap
  | enum f name => exact matched_mark f (matched_of_word (isWordChar_of_isEnumName h).2)
  | geometry f shape e ih =>
    refine matched_mark f ?_
    rw [List.append_assoc]
    refine .append (matched_of_word ?_) (.enclose (by decide) (by decide) (by decide) (ih h).allow)
    cases shape <;> exact List.forall_iff_forall_mem.1 (by decide)
  | relation f t =>
    refine matched_mark f (.plain (by decide) (by decide) (by decide) (.of_plain fun c hc => ?_))
    rcases Target.mem_text h hc with hword | rfl
    · exact plain_of_isWordChar hword
    · decide

theorem matched_kindChars {e : TypeExpr} (h : e.isWellFormed = true) :
    Matched false e.kindChars := by
  have hplain := matched_chars (e := e.withFlags {}) (by cases e <;> exact h)
  rw [chars_eq_mark] at hplain
  cases e <;> simpa [withFlags, flags, mark, kindChars] using hplain

theorem not_isBlank_of_mem_mark {flags : Flags} {body : List Char}
    (h : ∀ c ∈ body, Text.isBlank c = false) : ∀ c ∈ mark flags body, Text.isBlank c = false := by
  have hin : ∀ c ∈ innerText flags body, Text.isBlank c = false := by
    intro c hc
    simp only [innerText, strengthMarks, List.mem_append] at hc
    rcases hc with ((hc | hc) | hc) | hc
    · split at hc <;> simp_all
      decide
    · split at hc <;> simp_all
      decide
    · exact h c hc
    · split at hc <;> simp_all
      decide
  rw [mark_eq]
  cases flags.key with
  | none => exact hin
  | primary => exact List.forall_mem_cons.2 ⟨by decide, hin⟩
  | group =>
    exact List.forall_mem_append.2 ⟨List.forall_mem_cons.2 ⟨by decide, hin⟩,
      List.forall_mem_singleton.2 (by decide)⟩

/-- There are no blanks in a canonical text. -/
theorem not_isBlank_of_mem_chars {e : TypeExpr} (h : e.isWellFormed = true) :
    ∀ c ∈ e.chars, Text.isBlank c = false := by
  have hword {text : List Char} (h : ∀ c ∈ text, Text.isWordChar c = true) :
      ∀ c ∈ text, Text.isBlank c = false := fun c hc => Text.isBlank_of_isWordChar (h c hc)
  induction e with
  | primitive f p => exact not_isBlank_of_mem_mark (hword isWordChar_of_name)
  | array f e ih =>
    refine not_isBlank_of_mem_mark (List.forall_mem_append.2
      ⟨List.forall_mem_cons.2 ⟨by decide, ih h⟩, List.forall_mem_singleton.2 (by decide)⟩)
  | map f k v ihk ihv =>
    simp only [isWellFormed, Bool.and_eq_true] at h
    refine not_isBlank_of_mem_mark
      (List.forall_mem_append.2 ⟨?_, List.forall_mem_singleton.2 (by decide)⟩)
    refine List.forall_mem_cons.2 ⟨by decide, List.forall_mem_append.2 ⟨ihk h.1, ?_⟩⟩
    exact List.forall_mem_cons.2 ⟨by decide, ihv h.2⟩
  | enum f name => exact not_isBlank_of_mem_mark (hword (isWordChar_of_isEnumName h).2)
  | geometry f shape e ih =>
    refine not_isBlank_of_mem_mark
      (List.forall_mem_append.2 ⟨List.forall_mem_append.2 ⟨?_, ?_⟩, ?_⟩)
    · cases shape <;> exact List.forall_iff_forall_mem.1 (by decide)
    · exact List.forall_mem_cons.2 ⟨by decide, ih h⟩
    · exact List.forall_mem_singleton.2 (by decide)
  | relation f t =>
    refine not_isBlank_of_mem_mark (List.forall_mem_cons.2 ⟨by decide, fun c hc => ?_⟩)
    rcases Target.mem_text h hc with hc | rfl
    · exact Text.isBlank_of_isWordChar hc
    · decide

theorem trim_chars {e : TypeExpr} (h : e.isWellFormed = true) : Text.trim e.chars = e.chars := by
  rw [chars_eq_mark]
  exact trim_mark (bare_kindChars h) e.flags

theorem chars_ne_nil {e : TypeExpr} (h : e.isWellFormed = true) : e.chars ≠ [] := by
  obtain ⟨c, rest, hstart, -⟩ := (bare_kindChars h).inner_starts e.flags
  rw [chars_eq_mark, mark_eq]
  cases e.flags.key <;> simp [hstart]

/-! ### Reading -/

/-- The marks of the outermost flags are peeled off a canonical text. -/
theorem peel_chars (whole : String) {e : TypeExpr} (h : e.isWellFormed = true) :
    peel whole e.chars = .ok (e.flags, e.kindChars) := by
  rw [chars_eq_mark]
  exact peel_mark whole e.flags (bare_kindChars h) (matched_kindChars h)

/-- A canonical text is read as the annotation.

**Proof sketch.** By induction on the annotation. The marks are peeled off again, the bare text is
of the kind it is written for, and the texts of the parts are found between its brackets. -/
theorem parseBalanced_chars (whole : String) {e : TypeExpr} (h : e.isWellFormed = true) :
    parseBalanced whole e.chars = .ok e := by
  induction e with
  | primitive f p =>
    rw [parseBalanced_ok_iff (peel_chars whole h), kindChars, Form.ofText_primitive]
    exact .primitive p
  | array f e ih =>
    have he : e.isWellFormed = true := h
    rw [parseBalanced_ok_iff (peel_chars whole h), kindChars,
      Form.ofText_array (matched_chars he).allow]
    exact .array (ih he)
  | map f k v ihk ihv =>
    have hkv : (k.isWellFormed && v.isWellFormed) = true := h
    obtain ⟨hk, hv⟩ := Bool.and_eq_true_iff.1 hkv
    have hform : Form.ofText (map f k v).kindChars = .map (k.chars ++ ':' :: v.chars) := by
      have hmap := Form.ofText_map (matched_entry (matched_chars hk) (matched_chars hv))
      simpa [kindChars] using hmap
    have hsplit : splitMapEntry 0 (k.chars ++ ':' :: v.chars) = some (k.chars, v.chars) := by
      rw [(matched_chars hk).splitMapEntry_append (by decide) (fun _ => rfl)]
      simp [splitMapEntry]
    rw [parseBalanced_ok_iff (peel_chars whole h), hform]
    exact .map hsplit (ihk hk) (ihv hv)
  | enum f name =>
    have hread : ReadAs whole f (.enum name.toList) (enum f (String.ofList name.toList)) := .enum _
    rw [parseBalanced_ok_iff (peel_chars whole h), kindChars, Form.ofText_enum h]
    rwa [String.ofList_toList] at hread
  | geometry f shape e ih =>
    have he : e.isWellFormed = true := h
    have hline : '\n' ∉ e.chars := fun hmem => by cases not_isBlank_of_mem_chars he _ hmem
    rw [parseBalanced_ok_iff (peel_chars whole h), kindChars,
      Form.ofText_geometry shape (trim_chars he) hline]
    exact .geometry (List.isEmpty_eq_false_iff.2 (chars_ne_nil he)) (ih he)
  | relation f t =>
    have ht : t.isWellFormed = true := h
    have htrim : Text.trim t.text.toList = t.text.toList := by
      obtain ⟨before, last, htext, hlast⟩ := Target.text_ends ht
      obtain ⟨first, after, hfirst, hblank⟩ := Target.text_starts ht
      exact Text.trim_of_ends hfirst htext hblank (Text.isBlank_of_isWordChar hlast)
    rw [parseBalanced_ok_iff (peel_chars whole h), kindChars, Form.ofText]
    exact .relation (by rw [htrim, Target.ofChars?_text ht])

/-- The canonical text of a well-formed annotation is read as the annotation. -/
theorem parse_text {e : TypeExpr} (h : e.isWellFormed = true) : parse e.text = .ok e := by
  have htrim : Text.trim e.text.toList = e.chars := by
    rw [text, String.toList_ofList, trim_chars h]
  have hempty : e.chars.isEmpty = false := List.isEmpty_eq_false_iff.2 (chars_ne_nil h)
  simp only [parse, parse?, htrim, hempty, (matched_chars h).check, parseBalanced_chars _ h,
    Bool.false_eq_true, if_false]
  rfl

/-! ### What is read -/

/-- A text whose brackets match is read as a well-formed annotation, if it is read at all. -/
theorem isWellFormed_of_parseBalanced {whole : String} {text : List Char} {e : TypeExpr}
    (h : parseBalanced whole text = .ok e) : e.isWellFormed = true := by
  induction e generalizing text with
  | primitive f p => rfl
  | enum f name => exact (readFrom_of_parseBalanced h).2
  | relation f t => exact (readFrom_of_parseBalanced h).2
  | array f e ih =>
    obtain ⟨-, inside, -, he⟩ := readFrom_of_parseBalanced h
    exact ih he
  | map f k v ihk ihv =>
    obtain ⟨-, key, value, -, hk, hv⟩ := readFrom_of_parseBalanced h
    rw [isWellFormed, ihk hk, ihv hv]
    rfl
  | geometry f shape e ih =>
    obtain ⟨-, ⟨rfl, -⟩ | ⟨element, -, he⟩⟩ := readFrom_of_parseBalanced h
    · rfl
    · exact ih he

/-- What is read is read from the trimmed text. -/
theorem parseBalanced_of_parse {text : String} {e : TypeExpr} (h : parse text = .ok e) :
    parseBalanced text (Text.trim text.toList) = .ok e := by
  unfold parse parse? at h
  dsimp only at h
  split at h
  · cases h
  · split at h
    · cases h
    · cases hb : parseBalanced text (Text.trim text.toList) with
      | error fault =>
        rw [hb] at h
        cases h
      | ok a =>
        rw [hb] at h
        cases h
        rfl

/-- What is read is well-formed. -/
theorem isWellFormed_of_parse {text : String} {e : TypeExpr} (h : parse text = .ok e) :
    e.isWellFormed = true :=
  isWellFormed_of_parseBalanced (parseBalanced_of_parse h)

/-- Between parentheses there is no primary key. -/
theorem key_ne_primary_of_parse {text : String} {inside : List Char} {e : TypeExpr}
    (htext : text.toList = '(' :: inside ++ [')']) (h : parse text = .ok e) :
    e.flags.key ≠ .primary := by
  have htrim : Text.trim text.toList = text.toList :=
    Text.trim_of_ends htext htext (by decide) (by decide)
  have h := parseBalanced_of_parse h
  rw [htrim] at h
  obtain ⟨flags, rest, hp⟩ := exists_peel_of_parseBalanced h
  rw [flags_of_parseBalanced hp h]
  have houter : peelNullable text.toList = (false, text.toList) := by
    have happend := peelNullable_append ('(' :: inside) (c := ')') (by decide) (by decide) false
    rw [htext]
    simpa using happend
  rw [peel, htrim, houter] at hp
  dsimp only at hp
  rw [htext, List.cons_append, peelPrimary_of_ne (by decide)] at hp
  unfold peelKey at hp
  split at hp
  · cases hp
    rintro ⟨⟩
  · cases hp
    rintro ⟨⟩

/-- **Annotations and their canonical texts correspond.** The annotations that some text is read as
are those whose names can be read, and the canonical text of each of them is read as the annotation
itself. So two annotations that are read from texts are the same if their canonical texts are. -/
theorem roundTrip (e : TypeExpr) :
    ((∃ text, parse text = .ok e) ↔ e.isWellFormed = true) ∧
      (e.isWellFormed = true → parse e.text = .ok e) ∧
      (∀ text, parse text = .ok e → parse e.text = .ok e) ∧
      ∀ e' text text', parse text = .ok e → parse text' = .ok e' → e.text = e'.text → e = e' := by
  have hread {text : String} {e : TypeExpr} (h : parse text = .ok e) : parse e.text = .ok e :=
    parse_text (isWellFormed_of_parse h)
  refine ⟨⟨?_, fun h => ⟨e.text, parse_text h⟩⟩, parse_text, fun text => hread, ?_⟩
  · rintro ⟨text, h⟩
    exact isWellFormed_of_parse h
  · intro e' text text' h h' htext
    have he := hread h
    rw [htext, hread h'] at he
    cases he
    rfl

/-- A group key that is a map from the members of an enum to arrays of optional pairs of numbers. -/
theorem roundTrip_nested :
    let e : TypeExpr :=
      map { key := .group, nullable := true } (enum { strong := true } "Rarity")
        (array { sequence := true } (geometry { nullable := true } .point defaultElement))
    e.isWellFormed = true ∧ e.text = "(\x7b!Rarity:~[point<uint>?]\x7d?)" ∧
      parse e.text = .ok e := by
  intro e
  have hwf : e.isWellFormed = true := by decide
  exact ⟨hwf, by decide, (roundTrip e).2.1 hwf⟩

end TypeExpr

end TypedSheets
