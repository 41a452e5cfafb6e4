import TypedSheets.Proofs.Text.Pieces
import TypedSheets.Proofs.Text.Words
import TypedSheets.Proofs.TypeExpr.Matched

/-!
# The kinds of annotation texts

The text of a bare annotation is of the kind it is written for, and the text of a target is read as
the target.

## Main definitions

* `TypeExpr.isWellFormed` — the names in an annotation can be read.

## Main results

* `Form.ofText_array`, `Form.ofText_map`, `Form.ofText_geometry`, `Form.ofText_enum` — the kind of a
  text.
* `Target.ofChars?_text` — the text of a target is read as the target.
* `Target.isWellFormed_of_ofChars?` — what is read as a target has names that can be read.
-/

namespace TypedSheets

/-- Whether a table, and the column if there is one, have names that can be read. -/
def Target.isWellFormed (t : Target) : Bool :=
  Text.isIdentifier t.table.toList && t.column.all fun c => Text.isIdentifier c.toList

/-- The kinds of pairs of numbers. -/
def Geometry.all : List Geometry := [point, size, range]

namespace TypeExpr

/-- Whether a name is read as that of an enum: an identifier that spells no other type. -/
def isEnumName (name : String) : Bool :=
  Text.isIdentifier name.toList && (Primitive.ofName? name).isNone &&
    Geometry.all.all fun shape => shape.name != name

/-- Whether all names in an annotation can be read. -/
def isWellFormed : TypeExpr → Bool
  | primitive _ _ => true
  | array _ e | geometry _ _ e => e.isWellFormed
  | map _ k v => k.isWellFormed && v.isWellFormed
  | enum _ name => isEnumName name
  | relation _ t => t.isWellFormed

end TypeExpr

/-! ### Names and brackets as kinds -/

theorem Primitive.isWordChar_of_ofName? {name : String} {p : Primitive}
    (h : ofName? name = some p) : ∀ c ∈ name.toList, Text.isWordChar c = true := by
  unfold ofName? at h
  split at h
  case h_33 => cases h
  all_goals exact List.forall_iff_forall_mem.1 (by decide)

/-- A text with a character that is none of a word spells no primitive type. -/
theorem Primitive.ofName?_of_mem {text : List Char} {c : Char} (hc : c ∈ text)
    (hword : Text.isWordChar c = false) : ofName? (String.ofList text) = none := by
  cases hp : ofName? (String.ofList text) with
  | none => rfl
  | some p => cases hword.symm.trans (isWordChar_of_ofName? hp c (by simpa using hc))

namespace Form

open Bracket

theorem ofText_primitive (p : Primitive) : ofText p.name.toList = primitive p := by
  cases p <;> rfl

/-- A text that starts with a bracket spells no primitive type. -/
theorem ofName?_of_opening {c : Char} (h : isOpening c = true) (rest : List Char) :
    Primitive.ofName? (String.ofList (c :: rest)) = none := by
  refine Primitive.ofName?_of_mem List.mem_cons_self ?_
  simp only [isOpening, Bool.or_eq_true, beq_iff_eq] at h
  rcases h with ((rfl | rfl) | rfl) | rfl <;> decide

theorem enclosed_of_ne {opening c : Char} (h : c ≠ opening) (rest : List Char) :
    enclosed opening (c :: rest) = none := by
  rw [enclosed, if_neg h]

theorem enclosed_enclose (opening : Char) {closing : Char} {inside : List Char}
    (hc : isClosing closing = true) (h : Matched true inside) :
    enclosed opening (opening :: inside ++ [closing]) = some inside := by
  rw [List.cons_append, enclosed, if_pos rfl, h.partnerAfter_closing hc]

/-- The kinds of a text that is no relation, in the order in which they are tried. -/
theorem ofText_of_ne {c : Char} (h : c ≠ '$') (rest : List Char) :
    ofText (c :: rest) =
      match Primitive.ofName? (String.ofList (c :: rest)) with
      | some p => primitive p
      | none =>
        match enclosed '[' (c :: rest) with
        | some inside => array inside
        | none =>
          match enclosed '{' (c :: rest) with
          | some inside => map inside
          | none =>
            match geometry? (c :: rest) with
            | some (shape, element) => geometry shape element
            | none => if Text.isIdentifier (c :: rest) then enum (c :: rest) else unknown := by
  rewrite [ofText]
  · rfl
  · intro hnil
    cases hnil
  · rintro _ ⟨rfl, -⟩
    exact h rfl

theorem ofText_array {inside : List Char} (h : Matched true inside) :
    ofText ('[' :: inside ++ [']']) = array inside := by
  have henclosed := enclosed_enclose '[' (show isClosing ']' = true by decide) h
  have hname := ofName?_of_opening (c := '[') (by decide) (inside ++ [']'])
  rw [List.cons_append] at henclosed ⊢
  rw [ofText_of_ne (by decide), hname, henclosed]

theorem ofText_map {inside : List Char} (h : Matched true inside) :
    ofText ('{' :: inside ++ ['}']) = map inside := by
  have henclosed := enclosed_enclose '{' (show isClosing '}' = true by decide) h
  have hname := ofName?_of_opening (c := '{') (by decide) (inside ++ ['}'])
  have harray := enclosed_of_ne (show '{' ≠ '[' by decide) (inside ++ ['}'])
  rw [List.cons_append] at henclosed ⊢
  rw [ofText_of_ne (by decide), hname, harray, henclosed]

theorem stripPrefix_append (start rest : List Char) :
    Text.stripPrefix start (start ++ rest) = some rest := by
  induction start with
  | nil => rfl
  | cons a start ih => rw [List.cons_append, Text.stripPrefix, if_pos rfl, ih]

theorem eq_append_of_stripPrefix {start text rest : List Char}
    (h : Text.stripPrefix start text = some rest) : text = start ++ rest := by
  induction start generalizing text with
  | nil => simpa [Text.stripPrefix] using h
  | cons a start ih =>
    cases text with
    | nil => cases h
    | cons c text =>
      rw [Text.stripPrefix] at h
      split at h
      · rename_i hac
        rw [ih h, hac, List.cons_append]
      · cases h

theorem stripPrefix_of_ne {a b : Geometry} (h : a ≠ b) (rest : List Char) :
    Text.stripPrefix a.name.toList (b.name.toList ++ rest) = none := by
  cases a <;> cases b <;> first | exact absurd rfl h | rfl

/-- A pair of numbers with a trimmed element type in angle brackets. -/
theorem geometry?_angled (shape : Geometry) {element : List Char}
    (htrim : Text.trim element = element) (hline : '\n' ∉ element) :
    geometry? (shape.name.toList ++ '<' :: element ++ ['>']) = some (shape, element) := by
  have hangled : angled ('<' :: element ++ ['>']) = some element := by
    have hstrip : Text.stripSuffix '>' (element ++ ['>']) = some element := by
      simp [Text.stripSuffix]
    simp [angled, hstrip, hline, htrim]
  rw [List.append_assoc, geometry?]
  have hself :
      ((Text.stripPrefix shape.name.toList (shape.name.toList ++
        ('<' :: element ++ ['>']))).bind angled).map (fun e => (shape, e)) =
          some (shape, element) := by
    rw [stripPrefix_append, Option.bind_some, hangled]
    rfl
  have hother {other : Geometry} (h : other ≠ shape) :
      ((Text.stripPrefix other.name.toList (shape.name.toList ++
        ('<' :: element ++ ['>']))).bind angled).map (fun e => (other, e)) = none := by
    rw [stripPrefix_of_ne h]
    rfl
  cases shape with
  | point => rw [List.findSome?_cons, hself]
  | size => rw [List.findSome?_cons, hother (by decide), List.findSome?_cons, hself]
  | range =>
    rw [List.findSome?_cons, hother (by decide), List.findSome?_cons, hother (by decide),
      List.findSome?_cons, hself]

theorem geometry?_of_isWord {text : List Char} (hword : ∀ c ∈ text, Text.isWordChar c = true)
    (hne : ∀ shape : Geometry, shape.name.toList ≠ text) : geometry? text = none := by
  unfold geometry?
  rw [List.findSome?_eq_none_iff]
  intro shape _
  cases hstrip : Text.stripPrefix shape.name.toList text with
  | none => rfl
  | some rest =>
    have htext := eq_append_of_stripPrefix hstrip
    cases rest with
    | nil => exact absurd (by rw [htext, List.append_nil]) (hne shape)
    | cons c rest =>
      have hc : Text.isWordChar c = true := hword c (by simp [htext])
      have hangle : c ≠ '<' := Text.ne_of_isWordChar hc (by decide)
      have : angled (c :: rest) = none := by
        unfold angled
        split
        · rename_i heq
          cases heq
        · rename_i heq
          cases heq
          exact absurd rfl hangle
        · rfl
      simp [this]

theorem enclosed_of_isWord {text : List Char} (hword : ∀ c ∈ text, Text.isWordChar c = true)
    {opening : Char} (ho : Text.isWordChar opening = false) : enclosed opening text = none := by
  cases text with
  | nil => rfl
  | cons c rest =>
    exact enclosed_of_ne (Text.ne_of_isWordChar (hword c (List.mem_cons_self ..)) ho) rest

theorem ofText_geometry (shape : Geometry) {element : List Char}
    (htrim : Text.trim element = element) (hline : '\n' ∉ element) :
    ofText (shape.name.toList ++ '<' :: element ++ ['>']) = geometry shape element := by
  have hgeometry := geometry?_angled shape htrim hline
  have hname :
      Primitive.ofName? (String.ofList (shape.name.toList ++ '<' :: element ++ ['>'])) = none :=
    Primitive.ofName?_of_mem (c := '<') (by simp) (by decide)
  generalize htext : shape.name.toList ++ '<' :: element ++ ['>'] = text at *
  have hstart : ∃ c rest, text = c :: rest ∧ c ≠ '$' ∧ c ≠ '[' ∧ c ≠ '{' := by
    subst htext
    cases shape <;> exact ⟨_, _, rfl, by decide, by decide, by decide⟩
  obtain ⟨c, rest, rfl, hdollar, hbracket, hbrace⟩ := hstart
  rw [ofText_of_ne hdollar, hname, enclosed_of_ne hbracket, enclosed_of_ne hbrace, hgeometry]

theorem ofText_enum {name : String} (h : TypeExpr.isEnumName name = true) :
    ofText name.toList = enum name.toList := by
  simp only [TypeExpr.isEnumName, Bool.and_eq_true, Option.isNone_iff_eq_none, List.all_eq_true,
    bne_iff_ne] at h
  obtain ⟨⟨hident, hprimitive⟩, hshapes⟩ := h
  obtain ⟨c, rest, htext, hword⟩ := Text.isWordChar_of_isIdentifier hident
  have hgeometry : geometry? name.toList = none := by
    refine geometry?_of_isWord hword fun shape hshape => ?_
    refine hshapes shape ?_ (String.toList_injective hshape)
    cases shape <;> decide
  have harray := enclosed_of_isWord hword (show Text.isWordChar '[' = false by decide)
  have hmap := enclosed_of_isWord hword (show Text.isWordChar '{' = false by decide)
  have hdollar : c ≠ '$' := Text.ne_of_isWordChar (hword c (by simp [htext])) (by decide)
  have hprimitive : Primitive.ofName? (String.ofList name.toList) = none := by
    rw [String.ofList_toList, hprimitive]
  rw [htext] at hprimitive harray hmap hgeometry hident ⊢
  rw [ofText_of_ne hdollar, hprimitive, harray, hmap, hgeometry]
  exact if_pos hident

end Form

/-! ### Canonical texts -/

namespace Target

/-- The text of a target is a name, or two with a point between them. -/
theorem text_cases {t : Target} (h : t.isWellFormed = true) :
    (t.column = none ∧ Text.isIdentifier t.table.toList = true ∧ t.text.toList = t.table.toList) ∨
    ∃ c, t.column = some c ∧ Text.isIdentifier t.table.toList = true ∧
      Text.isIdentifier c.toList = true ∧ t.text.toList = t.table.toList ++ '.' :: c.toList := by
  obtain ⟨table, column⟩ := t
  cases column with
  | none => exact .inl ⟨rfl, by simpa [Target.isWellFormed] using h, rfl⟩
  | some c =>
    simp only [Target.isWellFormed, Bool.and_eq_true, Option.all_some] at h
    exact .inr ⟨c, rfl, h.1, h.2, by simp [Target.text]⟩

/-- Words and points are all that the text of a target is made of. -/
theorem mem_text {t : Target} (h : t.isWellFormed = true) {c : Char}
    (hc : c ∈ t.text.toList) : Text.isWordChar c = true ∨ c = '.' := by
  rcases text_cases h with ⟨-, htable, htext⟩ | ⟨column, -, htable, hcolumn, htext⟩
  · obtain ⟨-, -, -, hword⟩ := Text.isWordChar_of_isIdentifier htable
    exact .inl (hword c (htext ▸ hc))
  · obtain ⟨-, -, -, htable⟩ := Text.isWordChar_of_isIdentifier htable
    obtain ⟨-, -, -, hcolumn⟩ := Text.isWordChar_of_isIdentifier hcolumn
    rw [htext, List.mem_append, List.mem_cons] at hc
    rcases hc with hc | rfl | hc
    · exact .inl (htable c hc)
    · exact .inr rfl
    · exact .inl (hcolumn c hc)

/-- The text of a target starts with no blank. -/
theorem text_starts {t : Target} (h : t.isWellFormed = true) :
    ∃ c rest, t.text.toList = c :: rest ∧ Text.isBlank c = false := by
  have hstart (rest : List Char) (h : Text.isIdentifier t.table.toList = true) :
      ∃ c rest', t.table.toList ++ rest = c :: rest' ∧ Text.isBlank c = false := by
    obtain ⟨c, name, hname, hword⟩ := Text.isWordChar_of_isIdentifier h
    exact ⟨c, name ++ rest, by rw [hname]; rfl,
      Text.isBlank_of_isWordChar (hword c (by simp [hname]))⟩
  rcases text_cases h with ⟨-, htable, htext⟩ | ⟨column, -, htable, -, htext⟩
  · rw [htext]
    simpa using hstart [] htable
  · rw [htext]
    exact hstart _ htable

/-- The text of a target ends with a word character. -/
theorem text_ends {t : Target} (h : t.isWellFormed = true) :
    ∃ before c, t.text.toList = before ++ [c] ∧ Text.isWordChar c = true := by
  have hends {name : List Char} (h : Text.isIdentifier name = true) :
      ∃ before c, name = before ++ [c] ∧ Text.isWordChar c = true := by
    obtain ⟨c, rest, hname, hword⟩ := Text.isWordChar_of_isIdentifier h
    have hne : name ≠ [] := by simp [hname]
    exact ⟨_, _, (List.dropLast_append_getLast hne).symm, hword _ (List.getLast_mem hne)⟩
  rcases text_cases h with ⟨-, htable, htext⟩ | ⟨column, -, htable, hcolumn, htext⟩
  · rw [htext]
    exact hends htable
  · obtain ⟨before, c, hcolumn, hc⟩ := hends hcolumn
    exact ⟨t.table.toList ++ '.' :: before, c, by rw [htext, hcolumn]; simp, hc⟩

/-- The text of a target is read as the target. -/
theorem ofChars?_text {t : Target} (h : t.isWellFormed = true) :
    ofChars? t.text.toList = some t := by
  have hpoint {name : List Char} (h : Text.isIdentifier name = true) : '.' ∉ name := by
    obtain ⟨-, -, -, hword⟩ := Text.isWordChar_of_isIdentifier h
    exact fun hmem => Text.ne_of_isWordChar (hword '.' hmem) (by decide) rfl
  obtain ⟨table, column⟩ := t
  rcases text_cases h with ⟨hcolumn, htable, htext⟩ | ⟨column, hcolumn, htable, hident, htext⟩
  · cases hcolumn
    rw [htext, ofChars?, Text.cutAt_of_not_mem (hpoint htable)]
    simp [htable]
  · cases hcolumn
    rw [htext, ofChars?, Text.cutAt_append_cons (hpoint htable)]
    simp [htable, hident]

/-- What is read as a target has names that can be read. -/
theorem isWellFormed_of_ofChars? {text : List Char} {t : Target} (h : ofChars? text = some t) :
    t.isWellFormed = true := by
  unfold ofChars? at h
  split at h
  · split at h
    · rename_i htable
      cases h
      simpa [isWellFormed] using htable
    · cases h
  · split at h
    · rename_i hnames
      cases h
      simpa [isWellFormed] using hnames
    · cases h

end Target

end TypedSheets
