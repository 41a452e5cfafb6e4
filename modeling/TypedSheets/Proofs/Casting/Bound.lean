import Mathlib.Algebra.Order.BigOperators.Group.List
import Mathlib.Data.List.Infix
import Mathlib.Data.List.ProdSigma
import Mathlib.Tactic.Ring
import TypedSheets.Proofs.Call.Arguments
import TypedSheets.Proofs.Casting.Depth
import TypedSheets.Proofs.Container.Elements
import TypedSheets.Proofs.Relation.Chains
import TypedSheets.Proofs.TypeExpr.Inner

/-!
# The bound on nested casts is large enough

The annotations that a cast meets are written somewhere, or stand inside the stored type of one that
is; the texts that it meets stand in texts that are written somewhere. Of both there are only so
many, and the bound on nested casts counts them. So a cast meets the bound only if it would go on
without end.

## Main definitions

* `Definitions.annotations`, `Definitions.cells` — the annotations and cells that a cast can meet.

## Main results

* `Definitions.closed_slots` — a cast meets no others.
* `Definitions.cast_ends` — a cast that comes to an end at some depth does so within the bound.
* `Definitions.cast_congr` — cells that come to the same at every depth have the same cast.
-/

namespace TypedSheets

open Schemas (storedMask)

/-! ### Root types -/

theorem isNullable_makeNullable (text : String) : isNullable (makeNullable text) = true := by
  unfold makeNullable
  split
  · assumption
  · have hstart (l : List Char) : Text.trimStart (l ++ ['?']) = Text.trimStart l ++ ['?'] := by
      rw [Text.trimStart, List.dropWhile_append]
      split
      · rename_i h
        rw [Text.trimStart, List.isEmpty_iff.1 h]
        rfl
      · rfl
    rw [isNullable, Text.trimmed, String.toList_append, String.toList_ofList, Text.trim]
    show ((Text.trimEnd (Text.trimStart (_ ++ ['?']))).getLast? == some '?') = true
    rw [hstart, Text.trimEnd_concat (by decide), List.getLast?_concat]
    rfl

theorem makeNullable_makeNullable (text : String) :
    makeNullable (makeNullable text) = makeNullable text := by
  rw [makeNullable, if_pos (isNullable_makeNullable text)]

theorem length_makeNullable_le (text : String) :
    (makeNullable text).length ≤ text.length + 1 := by
  unfold makeNullable
  split
  · exact Nat.le_succ _
  · rw [String.length_append, Text.trimmed, String.length_ofList]
    have htrim := Text.length_trim_le text.toList
    rw [String.length_toList] at htrim
    exact Nat.succ_le_succ htrim

theorem length_nakeFrom_le (mask : Modifiers) (text : List Char) :
    (nakeFrom mask text).length ≤ text.length := by
  fun_induction nakeFrom mask text with
  | case1 text next h hlt hempty => exact Nat.le_refl _
  | case2 text next h hlt hne ih => omega
  | case3 text h => exact Nat.le_refl _

theorem length_nake_le (mask : Modifiers) (text : String) :
    (nake mask text).length ≤ text.length := by
  have htrim := Text.length_trim_le text.toList
  rw [String.length_toList] at htrim
  rw [nake, String.length_ofList]
  exact (length_nakeFrom_le mask _).trans htrim

namespace Schemas

variable {ss : Schemas}

/-- The annotations of all columns. -/
def columnTypes (ss : Schemas) : List String :=
  ss.values.flatMap fun s => s.columns.values.map (·.type)

/-- What an annotation is stored as: an integer, the annotation itself without its marks unless it
is a relation, or a column that the relation leads to. -/
theorem rootFrom_cases {visited : List (String × String)} {type root : String}
    (h : ss.rootFrom visited type = .ok root) :
    (root = "int" ∨ root = "int?") ∨
    (∃ e, TypeExpr.parse type = .ok e ∧ e.relation? = none ∧ root = nake storedMask type) ∨
    ∃ w ∈ ss.columnTypes, root = nake storedMask (nake .key w) ∨
      root = makeNullable (nake storedMask (nake .key w)) := by
  fun_induction rootFrom ss visited type generalizing root with
  | case1 visited type f hparse => cases h
  | case2 visited type expr hparse hsequence =>
    cases h
    left
    split
    · exact .inr rfl
    · exact .inl rfl
  | case3 visited type expr hparse hsequence hrelation =>
    cases h
    exact .inr (.inl ⟨expr, hparse, hrelation, rfl⟩)
  | case4 => cases h
  | case5 => cases h
  | case6 visited type expr hparse hsequence target hrelation column hcolumn link hnew hlt =>
    rename_i ih
    obtain ⟨inner, hinner, rfl⟩ := Except.exists_of_map_ok h
    obtain ⟨schema, hschema, hmem⟩ := exists_mem_of_linked hcolumn
    have hw : column.type ∈ ss.columnTypes := List.mem_flatMap.2
      ⟨schema, Keyed.mem_values_of_find? hschema, List.mem_map.2 ⟨column, hmem, rfl⟩⟩
    rcases ih hinner with (rfl | rfl) | ⟨e, -, -, rfl⟩ | ⟨w, hw, rfl | rfl⟩
    · split
      · exact .inl (.inr (by decide))
      · exact .inl (.inl rfl)
    · split
      · exact .inl (.inr (by decide))
      · exact .inl (.inr rfl)
    · refine .inr (.inr ⟨column.type, hw, ?_⟩)
      split
      · exact .inr rfl
      · exact .inl rfl
    · refine .inr (.inr ⟨w, hw, ?_⟩)
      split
      · exact .inr rfl
      · exact .inl rfl
    · refine .inr (.inr ⟨w, hw, .inr ?_⟩)
      split
      · exact makeNullable_makeNullable _
      · rfl

end Schemas

/-- There is nothing inside an integer. -/
theorem TypeExpr.inner_eq_nil_of_parse_int {root : String} {expr : TypeExpr}
    (hroot : root = "int" ∨ root = "int?") (h : TypeExpr.parse root = .ok expr) :
    expr.inner = [] := by
  obtain ⟨f, rfl⟩ : ∃ f, root = (TypeExpr.primitive f .int32).text := by
    rcases hroot with rfl | rfl
    · exact ⟨{}, by decide⟩
    · exact ⟨{ nullable := true }, by decide⟩
  rw [TypeExpr.parse_text rfl] at h
  cases h
  rfl

/-- The stored type of a canonical text has the same annotations inside. -/
theorem TypeExpr.inner_eq_of_nake {a expr : TypeExpr} (ha : a.isWellFormed = true)
    (hrelation : a.relation? = none) (h : TypeExpr.parse (nake storedMask a.text) = .ok expr) :
    expr.inner = a.inner := by
  have hflags : (a.withFlags { nullable := a.nullable }).isWellFormed = true := by
    cases a <;> exact ha
  rw [TypeExpr.nake_storedMask ha hrelation, TypeExpr.parse_text hflags] at h
  cases h
  exact TypeExpr.inner_withFlags ..

namespace Definitions

variable {d : Definitions} {type : String} {cell : Cell}

/-! ### Annotations -/

/-- What is stored under an annotation that is a sequence or no relation. -/
theorem storedAs_of_ends (d : Definitions) {e : TypeExpr} (he : e.isWellFormed = true)
    (hends : e.Ends) : d.StoredAs e.text (e.stored e.nullable) := by
  cases hs : e.sequence with
  | true =>
    rw [TypeExpr.stored, if_pos hs]
    exact d.storedAs_sequence (TypeExpr.parse_text he) hs
  | false =>
    have hr : e.relation? = none := hends.resolve_left (by simp [hs])
    have hplain : ¬ e.sequence = true := by simp [hs]
    rw [TypeExpr.stored, if_neg hplain]
    refine ⟨(e.withFlags { nullable := e.nullable }).text, ?_, TypeExpr.parse_text ?_⟩
    · rw [Schemas.rootFrom, TypeExpr.parse_text he]
      simp only [hs, hr, Bool.false_eq_true, if_false, Schemas.storedMask]
      exact congrArg Except.ok (TypeExpr.nake_storedMask he hr)
    · rw [TypeExpr.isWellFormed_withFlags]
      exact he

/-- What is no sequence and no relation is stored without its marks but the nullable one. -/
theorem storedAs_plain (d : Definitions) {e : TypeExpr} (he : e.isWellFormed = true)
    (hr : e.relation? = none) (hs : ¬ e.sequence = true) :
    d.StoredAs e.text (e.withFlags { nullable := e.nullable }) := by
  have h := d.storedAs_of_ends he (.inr hr)
  rwa [TypeExpr.stored, if_neg hs] at h

/-- What a written annotation can be stored as, by itself or as the column of a relation. -/
def storedForms (w : String) : List String :=
  [nake storedMask w, nake storedMask (nake .key w),
    makeNullable (nake storedMask (nake .key w))]

/-- The canonical texts of the annotations inside a stored type. -/
def innerTexts (root : String) : List String :=
  match TypeExpr.parse root with
  | .ok e => e.inner.map TypeExpr.text
  | .error _ => []

/-- The annotations that a cast can meet: those that are written somewhere, and those inside the
stored types of written ones. -/
def annotations (d : Definitions) (type : String) : List String :=
  "DateTime" :: (type :: d.types) ++
    (type :: d.types).flatMap fun w => (storedForms w).flatMap innerTexts

theorem mem_annotations_of_stored {w root : String} (hw : w ∈ type :: d.types)
    (hroot : root ∈ storedForms w) {expr e : TypeExpr} (hexpr : TypeExpr.parse root = .ok expr)
    (he : e ∈ expr.inner) : e.text ∈ d.annotations type := by
  refine List.mem_append_right _ (List.mem_flatMap.2 ⟨w, hw, List.mem_flatMap.2 ⟨root, hroot, ?_⟩⟩)
  rw [innerTexts, hexpr]
  exact List.mem_map_of_mem he

/-- What stands inside a canonical text can be met, if what stands inside the annotation can. -/
theorem annotations_cases {t : String} (ht : t ∈ d.annotations type) :
    t ∈ type :: d.types ∨ ∃ a : TypeExpr, a.isWellFormed = true ∧ t = a.text ∧
      ∀ e ∈ a.inner, e.text ∈ d.annotations type := by
  rcases List.mem_append.1 ht with ht | ht
  · rcases List.mem_cons.1 ht with rfl | ht
    · refine .inr ⟨.primitive {} .dateTime, rfl, rfl, fun e he => ?_⟩
      cases he
    · exact .inl ht
  · obtain ⟨w, hw, ht⟩ := List.mem_flatMap.1 ht
    obtain ⟨root, hroot, ht⟩ := List.mem_flatMap.1 ht
    unfold innerTexts at ht
    split at ht
    · rename_i b hb
      obtain ⟨a, ha, rfl⟩ := List.mem_map.1 ht
      refine .inr ⟨a, ?_, rfl, fun e he => ?_⟩
      · exact TypeExpr.isWellFormed_of_mem_inner (TypeExpr.isWellFormed_of_parse hb) ha
      · exact mem_annotations_of_stored hw hroot hb (TypeExpr.mem_inner_trans ha he)
    · cases ht

/-- A cast does not meet other annotations inside the stored type of one that it can meet. -/
theorem mem_annotations_of_inner {t : String} (ht : t ∈ d.annotations type) {expr e : TypeExpr}
    (h : d.StoredAs t expr) (he : e ∈ expr.inner) : e.text ∈ d.annotations type := by
  obtain ⟨root, hroot, hexpr⟩ := h
  rcases Schemas.rootFrom_cases hroot with hint | ⟨a, ha, hrelation, rfl⟩ | ⟨w, hw, hform⟩
  · rw [TypeExpr.inner_eq_nil_of_parse_int hint hexpr] at he
    cases he
  · rcases annotations_cases ht with ht | ⟨b, hb, rfl, hinner⟩
    · exact mem_annotations_of_stored ht (List.mem_cons_self ..) hexpr he
    · cases (TypeExpr.parse_text hb).symm.trans ha
      rw [TypeExpr.inner_eq_of_nake hb hrelation hexpr] at he
      exact hinner e he
  · have hw : w ∈ type :: d.types :=
      List.mem_cons_of_mem _ (List.mem_append_left _ (List.mem_append_left _ hw))
    exact mem_annotations_of_stored hw (List.mem_cons_of_mem _ (by simpa using hform)) hexpr he

/-! ### Cells -/

/-- All pieces of a text. -/
def pieces (text : String) : List String :=
  (text.toList.tails.flatMap List.inits).map String.ofList

theorem mem_pieces {s text : String} (h : s.toList <:+: text.toList) : s ∈ pieces text := by
  obtain ⟨tail, hprefix, hsuffix⟩ := List.infix_iff_prefix_suffix.1 h
  refine List.mem_map.2 ⟨s.toList, List.mem_flatMap.2 ⟨tail, ?_, ?_⟩, String.ofList_toList⟩
  · exact (List.mem_tails _ _).2 hsuffix
  · exact (List.mem_inits _ _).2 hprefix

theorem exists_of_mem_pieces {s text : String} (h : s ∈ pieces text) :
    s.toList <:+: text.toList := by
  obtain ⟨l, hl, rfl⟩ := List.mem_map.1 h
  obtain ⟨tail, htail, hprefix⟩ := List.mem_flatMap.1 hl
  rw [String.toList_ofList, List.infix_iff_prefix_suffix]
  exact ⟨tail, (List.mem_inits _ _).1 hprefix, (List.mem_tails _ _).1 htail⟩

/-- The cells that a cast can meet: the given one, those of constants, and pieces of texts. -/
def cells (d : Definitions) (cell : Cell) : List Cell :=
  cell :: d.consts.values.map (·.value) ++
    (cell.display :: d.texts).flatMap fun text => (pieces text).map .text

theorem text_mem_cells {s text : String} (ht : text ∈ cell.display :: d.texts)
    (h : s.toList <:+: text.toList) : .text s ∈ d.cells cell :=
  List.mem_append_right _ (List.mem_flatMap.2 ⟨text, ht, List.mem_map_of_mem (mem_pieces h)⟩)

/-- The text of every cell that a cast can meet stands in a text that is written somewhere. -/
theorem exists_text_of_mem_cells {c : Cell} (hc : c ∈ d.cells cell) :
    ∃ text ∈ cell.display :: d.texts, c.display.toList <:+: text.toList := by
  rcases List.mem_append.1 hc with hc | hc
  · rcases List.mem_cons.1 hc with rfl | hc
    · exact ⟨_, List.mem_cons_self .., List.infix_refl _⟩
    · obtain ⟨constant, hconstant, rfl⟩ := List.mem_map.1 hc
      refine ⟨constant.value.display, ?_, List.infix_refl _⟩
      exact List.mem_cons_of_mem _ (List.mem_append_left _ (List.mem_map.2 ⟨_, hconstant, rfl⟩))
  · obtain ⟨text, htext, hc⟩ := List.mem_flatMap.1 hc
    obtain ⟨s, hs, rfl⟩ := List.mem_map.1 hc
    exact ⟨text, htext, exists_of_mem_pieces hs⟩

/-! ### Parts -/

theorem mem_types_of_param {p : Prototype} (hp : p ∈ d.prototypes.values) {q : Parameter}
    (hq : q ∈ p.params) : q.type ∈ d.types :=
  List.mem_append_right _ (List.mem_flatMap.2 ⟨p, hp, List.mem_map_of_mem hq⟩)

theorem mem_texts_of_default {p : Prototype} (hp : p ∈ d.prototypes.values) {q : Parameter}
    (hq : q ∈ p.params) {text : String} (hdefault : q.default = some text) : text ∈ d.texts :=
  List.mem_append_right _
    (List.mem_flatMap.2 ⟨p, hp, List.mem_filterMap.2 ⟨q, hq, hdefault⟩⟩)

/-- The annotation of a part is one that the stored type is put together from, or that of a date, or
of a parameter of a call. -/
theorem Part.type_cases {x y : Slot} (h : d.Part x y) :
    (∃ expr, d.StoredAs x.1 expr ∧ ∃ a ∈ expr.components, y.1 = a.text) ∨
    ((∃ f, d.StoredAs x.1 (.primitive f .dateRange)) ∧ y.1 = "DateTime") ∨
    (∃ f, d.StoredAs x.1 (.primitive f .call)) ∧
      ∃ p ∈ d.prototypes.values, ∃ q ∈ p.params, y.1 = q.type := by
  cases h with
  | item hstored hn hi => exact .inl ⟨_, hstored, _, List.mem_cons_self .., rfl⟩
  | key hstored hn hi hcut => exact .inl ⟨_, hstored, _, List.mem_cons_self .., rfl⟩
  | value hstored hn hi hcut =>
    exact .inl ⟨_, hstored, _, List.mem_cons_of_mem _ (List.mem_cons_self ..), rfl⟩
  | first hstored hs hcut => exact .inl ⟨_, hstored, _, List.mem_cons_self .., rfl⟩
  | second hstored hs hcut => exact .inl ⟨_, hstored, _, List.mem_cons_self .., rfl⟩
  | start hstored hs hcut => exact .inr (.inl ⟨⟨_, hstored⟩, rfl⟩)
  | finish hstored hs hcut => exact .inr (.inl ⟨⟨_, hstored⟩, rfl⟩)
  | argument hstored hs hcall hp ha =>
    exact .inr (.inr ⟨⟨_, hstored⟩, _, Keyed.mem_values_of_find? hp, _, (mem_boundTexts ha).1, rfl⟩)

/-- The text of a part stands in the text of the cell, and is shorter if it is an argument of a
call; or it is the default of a parameter. -/
theorem Part.text_cases {x y : Slot} (h : d.Part x y) :
    (∃ s, y.2 = .text s ∧ s.toList <:+: x.2.display.toList ∧
      ((∃ f, d.StoredAs x.1 (.primitive f .call)) → s.length < x.2.display.length)) ∨
    ∃ p ∈ d.prototypes.values, ∃ q ∈ p.params, ∃ s, q.default = some s ∧ y = (q.type, .text s) := by
  have hitem {item : List Char} (hn : x.2.isNull = false)
      (hi : item ∈ splitElements x.2.normalize.display.toList) : item <:+: x.2.display.toList :=
    (infix_splitElements hi).trans (Cell.infix_display_normalize hn)
  have hpart {l : List Char} {expr : TypeExpr} (hstored : d.StoredAs x.1 expr)
      (hexpr : ∀ f, expr ≠ .primitive f .call) (hl : l <:+: x.2.display.toList) :
      ∃ s, Cell.text (String.ofList l) = .text s ∧ s.toList <:+: x.2.display.toList ∧
        ((∃ f, d.StoredAs x.1 (.primitive f .call)) → s.length < x.2.display.length) := by
    refine ⟨_, rfl, by rwa [String.toList_ofList], ?_⟩
    rintro ⟨f, hcall⟩
    exact absurd (hstored.unique hcall) (hexpr f)
  have htrim {l l' : List Char} (h : l <:+: l') : Text.trim l <:+: l' := (Text.infix_trim l).trans h
  cases h with
  | item hstored hn hi => exact .inl (hpart hstored nofun (hitem hn hi))
  | key hstored hn hi hcut =>
    exact .inl (hpart hstored nofun (htrim ((Text.infix_of_cutAt hcut).1.trans (hitem hn hi))))
  | value hstored hn hi hcut =>
    exact .inl (hpart hstored nofun (htrim ((Text.infix_of_cutAt hcut).2.trans (hitem hn hi))))
  | first hstored hs hcut | start hstored hs hcut =>
    have hinside := (Text.infix_of_cutAt hcut).1.trans (Cell.infix_of_normalize hs)
    exact .inl (hpart hstored nofun (htrim hinside))
  | second hstored hs hcut | finish hstored hs hcut =>
    have hinside := (Text.infix_of_cutAt hcut).2.trans (Cell.infix_of_normalize hs)
    exact .inl (hpart hstored nofun (htrim hinside))
  | argument hstored hs hcall hp ha =>
    obtain ⟨hq, harg | hdefault⟩ := mem_boundTexts ha
    · have htext := Cell.infix_of_normalize hs
      refine .inl ⟨_, rfl, (Call.infix_args hcall harg).trans htext, fun _ => ?_⟩
      have hlength := htext.length_le
      rw [String.length_toList, String.length_toList] at hlength
      exact Nat.lt_of_lt_of_le (Call.length_arg_lt hcall harg) hlength
    · exact .inr ⟨_, Keyed.mem_values_of_find? hp, _, hq, _, hdefault, rfl⟩

/-- The parts of what a cast can meet are annotations and cells that it can meet. -/
theorem Part.mem_slots {x y : Slot} (h : d.Part x y) (ht : x.1 ∈ d.annotations type)
    (hc : x.2 ∈ d.cells cell) : y.1 ∈ d.annotations type ∧ y.2 ∈ d.cells cell := by
  constructor
  · rcases h.type_cases with ⟨expr, hstored, a, ha, hya⟩ | ⟨-, hy⟩ | ⟨-, p, hp, q, hq, hyq⟩
    · rw [hya]
      exact mem_annotations_of_inner ht hstored (TypeExpr.mem_inner_of_components ha)
    · rw [hy]
      exact List.mem_cons_self ..
    · rw [hyq]
      exact List.mem_append_left _ (List.mem_cons_of_mem _ (List.mem_cons_of_mem _
        (mem_types_of_param hp hq)))
  · obtain ⟨text, htext, hdisplay⟩ := exists_text_of_mem_cells hc
    rcases h.text_cases with ⟨s, hs, hinside, -⟩ | ⟨p, hp, q, hq, s, hdefault, hy⟩
    · rw [hs]
      exact text_mem_cells htext (hinside.trans hdisplay)
    · rw [hy]
      exact text_mem_cells (List.mem_cons_of_mem _ (mem_texts_of_default hp hq hdefault))
        (List.infix_refl _)

/-- The annotations and cells that a cast can meet. -/
def slots (d : Definitions) (type : String) (cell : Cell) : List Slot :=
  d.annotations type ×ˢ d.cells cell

theorem mem_slots_self (d : Definitions) (type : String) (cell : Cell) :
    (type, cell) ∈ d.slots type cell := by
  refine List.mem_product.2 ⟨?_, List.mem_append_left _ (List.mem_cons_self ..)⟩
  exact List.mem_append_left _ (List.mem_cons_of_mem _ (List.mem_cons_self ..))

/-- A cast meets nothing but what it can meet. -/
theorem closed_slots (type : String) (cell : Cell) : d.Closed (d.slots type cell) where
  part x hx y hy := by
    obtain ⟨ht, hc⟩ := List.mem_product.1 hx
    exact List.mem_product.2 (hy.mem_slots ht hc)
  const link constant h := by
    have hmem := Keyed.mem_values_of_find? h
    refine List.mem_product.2 ⟨?_, ?_⟩
    · refine List.mem_append_left _ (List.mem_cons_of_mem _ (List.mem_cons_of_mem _ ?_))
      exact List.mem_append_left _ (List.mem_append_right _ (List.mem_map_of_mem hmem))
    · exact List.mem_append_left _ (List.mem_cons_of_mem _ (List.mem_map_of_mem hmem))

/-! ### Counting -/

theorem length_innerTexts_le (root : String) : 2 * (innerTexts root).length ≤ root.length := by
  unfold innerTexts
  split
  · rename_i e he
    rw [List.length_map]
    exact (TypeExpr.length_inner_lt he).le
  · exact Nat.zero_le _

theorem length_annotations_le (d : Definitions) (type : String) :
    (d.annotations type).length ≤ d.typeBound type := by
  have hforms (w : String) : ((storedForms w).flatMap innerTexts).length ≤ 2 * w.length + 1 := by
    have h₁ := length_innerTexts_le (nake storedMask w)
    have h₂ := length_innerTexts_le (nake storedMask (nake .key w))
    have h₃ := length_innerTexts_le (makeNullable (nake storedMask (nake .key w)))
    have hw := length_nake_le storedMask w
    have hk := length_nake_le storedMask (nake .key w)
    have hkey := length_nake_le .key w
    have hnull := length_makeNullable_le (nake storedMask (nake .key w))
    simp only [storedForms, List.flatMap_cons, List.flatMap_nil, List.length_append,
      List.length_nil]
    omega
  have hall (ws : List String) :
      ws.length + (ws.flatMap fun w => (storedForms w).flatMap innerTexts).length ≤
        2 * total (ws.map fun w => w.length + 1) := by
    induction ws with
    | nil => exact Nat.le_refl _
    | cons w ws ih =>
      have := hforms w
      simp only [total, List.map_cons, List.foldr_cons, List.length_cons, List.flatMap_cons,
        List.length_append] at ih ⊢
      omega
  have := hall (type :: d.types)
  simp only [annotations, typeBound, List.length_append, List.length_cons] at this ⊢
  omega

theorem length_pieces_le (text : String) :
    (pieces text).length ≤ (text.length + 1) * (text.length + 1) := by
  rw [pieces, List.length_map, List.length_flatMap]
  refine (List.sum_le_card_nsmul _ (text.length + 1) fun n hn => ?_).trans ?_
  · obtain ⟨tail, htail, rfl⟩ := List.mem_map.1 hn
    rw [List.length_inits, ← String.length_toList]
    exact Nat.succ_le_succ ((List.mem_tails _ _).1 htail).length_le
  · rw [List.length_map, List.length_tails, String.length_toList]
    exact Nat.le_refl _

theorem length_cells_le (d : Definitions) (cell : Cell) :
    (d.cells cell).length ≤ d.textBound cell := by
  have hall (ts : List String) :
      ts.length + (ts.flatMap fun text => (pieces text).map Cell.text).length ≤
        total (ts.map fun t => t.length + 2) * total (ts.map fun t => t.length + 2) := by
    induction ts with
    | nil => exact Nat.le_refl _
    | cons t ts ih =>
      have hpieces := length_pieces_le t
      simp only [total, List.map_cons, List.foldr_cons, List.length_cons, List.flatMap_cons,
        List.length_append, List.length_map] at ih ⊢
      generalize List.foldr (· + ·) 0 (ts.map fun t => t.length + 2) = rest at ih ⊢
      have hsquare : (t.length + 2 + rest) * (t.length + 2 + rest) =
          (t.length + 1) * (t.length + 1) + (2 * t.length + 3 + 2 * (t.length + 2) * rest) +
            rest * rest := by ring
      omega
  have hconsts : d.consts.values.length ≤ d.texts.length := by
    rw [texts, List.length_append, List.length_map]
    exact Nat.le_add_right _ _
  have := hall (cell.display :: d.texts)
  simp only [cells, textBound, List.length_append, List.length_cons, List.length_map] at this ⊢
  omega

/-- **A cast that comes to an end at some depth does so within the bound** on nested casts. -/
theorem cast_ends {I : Condition} (hI : d.RemembersNames I) {depth : Nat}
    (h : (d.castFrom depth [] type cell).run.fresh ≠ .error .endless) :
    (d.cast type cell).run.fresh ≠ .error .endless := by
  have hcount : (d.slots type cell).length ≤ d.typeBound type * d.textBound cell := by
    rw [slots, List.length_product]
    exact Nat.mul_le_mul (length_annotations_le d type) (length_cells_le d cell)
  have h : d.values [] depth (type, cell) ≠ .error .endless := h
  refine ends_of_closed hI (closed_slots type cell) (mem_slots_self d type cell) ?_ h
  exact Nat.mul_le_mul_left _ (Nat.le_succ_of_le hcount)

/-- What a cell comes to at some depth is what its cast comes to. -/
theorem cast_eq_of_values {I : Condition} (hI : d.RemembersNames I) {n : Nat} {x : Slot}
    (h : d.values [] n x ≠ .error .endless) :
    (d.cast x.1 x.2).run.fresh = d.values [] n x :=
  (values_lasts hI [] x).eq (cast_ends hI h) h

/-- Cells that come to the same at every depth have the same cast. -/
theorem cast_congr {I : Condition} (hI : d.RemembersNames I) {x y : Slot}
    (h : ∀ n, d.values [] n x = d.values [] n y) :
    (d.cast x.1 x.2).run.fresh = (d.cast y.1 y.2).run.fresh := by
  by_cases hx : (d.cast x.1 x.2).run.fresh = .error .endless
  · rw [hx]
    by_contra hy
    have hends : d.values [] (d.depthBound y.1 y.2) x ≠ .error .endless := fun hend =>
      hy (hend.symm.trans (h _))
    exact hends ((cast_eq_of_values hI hends).symm.trans hx)
  · have hy : d.values [] (d.depthBound x.1 x.2) y ≠ .error .endless := h _ ▸ hx
    rw [cast_eq_of_values hI hy, ← h]
    rfl

end Definitions

end TypedSheets
