import TypedSheets.Proofs.Check.Keys
import TypedSheets.Proofs.Check.Relations
import TypedSheets.Proofs.Compilation.CastData

/-!
# Referential integrity

In the data of a compilation that comes to an end, a value of a relation type is a value of the
column that the relation leads to, wherever the value sits: in a column or a constant, in an array,
a map or a pair, or among the arguments of a call.

## Main definitions

* `Value.Inside` — a value inside a value, each with its type.
* `Compiled.Realized` — a text that a column has in a table or its value group.
* `Compiled.Refers`, `Compiled.Referential` — the values of relation types inside a value, and
  inside all values, occur where they lead to.

## Main results

* `Value.mem_positions_of_inside` — the positions of a value are the values inside it.
* `Workbook.Compiles.referential` — referential integrity.
-/

namespace TypedSheets

open Recall

/-! ### Values inside values -/

/-- A value inside a value, each with its type: at the value itself, in its parts, and in the
arguments of calls under the types of the parameters. -/
inductive Value.Inside (ps : Prototypes) : TypeExpr → Value → TypeExpr → Value → Prop
  | here {e v} : Inside ps e v e v
  | item {f e items v e' v'} (hv : v ∈ items) (h : Inside ps e v e' v') :
      Inside ps (.array f e) (.array items) e' v'
  | key {f k w entries x e' v'} (hx : x ∈ entries) (h : Inside ps k x.1 e' v') :
      Inside ps (.map f k w) (.map entries) e' v'
  | value {f k w entries x e' v'} (hx : x ∈ entries) (h : Inside ps w x.2 e' v') :
      Inside ps (.map f k w) (.map entries) e' v'
  | x {f e a b e' v'} (h : Inside ps e a e' v') : Inside ps (.geometry f .point e) (.point a b) e' v'
  | y {f e a b e' v'} (h : Inside ps e b e' v') : Inside ps (.geometry f .point e) (.point a b) e' v'
  | width {f e a b e' v'} (h : Inside ps e a e' v') :
      Inside ps (.geometry f .size e) (.size a b) e' v'
  | height {f e a b e' v'} (h : Inside ps e b e' v') :
      Inside ps (.geometry f .size e) (.size a b) e' v'
  | min {f e a b e' v'} (h : Inside ps e a e' v') :
      Inside ps (.geometry f .range e) (.range a b) e' v'
  | max {f e a b e' v'} (h : Inside ps e b e' v') :
      Inside ps (.geometry f .range e) (.range a b) e' v'
  | argument {f name p args b e e' v'} (hp : ps.find? name = some p) (hb : b ∈ p.params.zip args)
      (ht : TypeExpr.parse b.1.type = .ok e) (h : Inside ps e b.2 e' v') :
      Inside ps (.primitive f .call) (.call name args) e' v'

namespace Value

variable {ps : Prototypes} {e e' : TypeExpr} {v v' : Value}

theorem positions_subset_items {items : List Value} (hv : v ∈ items) :
    positions ps e v ⊆ itemPositions ps e items := by
  induction items with
  | nil => cases hv
  | cons w items ih =>
    rw [itemPositions]
    rcases List.mem_cons.1 hv with rfl | hv
    · exact List.subset_append_left _ _
    · exact List.subset_append_of_subset_right _ (ih hv)

theorem positions_subset_entries {k w : TypeExpr} {entries : List (Value × Value)}
    {x : Value × Value} (hx : x ∈ entries) :
    positions ps k x.1 ++ positions ps w x.2 ⊆ entryPositions ps k w entries := by
  induction entries with
  | nil => cases hx
  | cons y entries ih =>
    rw [entryPositions]
    rcases List.mem_cons.1 hx with rfl | hx
    · exact List.subset_append_left _ _
    · exact List.subset_append_of_subset_right _ (ih hx)

theorem positions_subset_arguments {params : List Parameter} {args : List Value}
    {b : Parameter × Value} (hb : b ∈ params.zip args) (ht : TypeExpr.parse b.1.type = .ok e) :
    positions ps e b.2 ⊆ argumentPositions ps params args := by
  induction params generalizing args with
  | nil => cases hb
  | cons p params ih =>
    cases args with
    | nil => cases hb
    | cons w args =>
      rw [List.zip_cons_cons] at hb
      rw [argumentPositions]
      rcases List.mem_cons.1 hb with rfl | hb
      · rw [ht]
        exact List.subset_append_left _ _
      · split
        · exact List.subset_append_of_subset_right _ (ih hb)
        · exact ih hb

/-- A value inside a value is one of its positions. -/
theorem mem_positions_of_inside (h : Inside ps e v e' v') : (e', v') ∈ positions ps e v := by
  induction h with
  | here =>
    unfold positions
    exact List.mem_cons_self ..
  | item hv _ ih =>
    rw [positions]
    exact List.mem_cons_of_mem _ (positions_subset_items hv ih)
  | key hx _ ih =>
    rw [positions]
    exact List.mem_cons_of_mem _ (positions_subset_entries hx (List.mem_append_left _ ih))
  | value hx _ ih =>
    rw [positions]
    exact List.mem_cons_of_mem _ (positions_subset_entries hx (List.mem_append_right _ ih))
  | x _ ih | width _ ih | min _ ih =>
    rw [positions]
    exact List.mem_cons_of_mem _ (List.mem_append_left _ ih)
  | y _ ih | height _ ih | max _ ih =>
    rw [positions]
    exact List.mem_cons_of_mem _ (List.mem_append_right _ ih)
  | argument hp hb ht _ ih =>
    rw [positions]
    simp only [hp]
    exact List.mem_cons_of_mem _ (positions_subset_arguments hb ht ih)

/-- A relation inside a type and a value is one of the type, or of a parameter. -/
theorem mem_relations_of_inside {f : Flags} {target : Target}
    (h : Inside ps e v (.relation f target) v') : target ∈ e.relations ∨
      ∃ p ∈ ps.values, ∃ q ∈ p.params, ∃ expr, TypeExpr.parse q.type = .ok expr ∧
        target ∈ expr.relations := by
  generalize he' : TypeExpr.relation f target = e' at h
  induction h with
  | here =>
    subst he'
    exact .inl (List.mem_singleton.2 rfl)
  | item _ _ ih | x _ ih | y _ ih | width _ ih | height _ ih | min _ ih | max _ ih => exact ih he'
  | key _ _ ih => exact (ih he').imp (List.mem_append_left _) id
  | value _ _ ih => exact (ih he').imp (List.mem_append_right _) id
  | @argument _ _ p _ b _ _ _ hp hb ht _ ih =>
    refine .inr ((ih he').elim (fun hmem => ?_) id)
    exact ⟨p, Keyed.mem_values_of_find? hp, b.1, (List.of_mem_zip hb).1, _, ht, hmem⟩

end Value

/-! ### What values refer to -/

namespace Compiled

variable (c : Compiled)

/-- Some value of a column, in the rows of a table or of a table whose output group is named after
it, is not empty and has a text. -/
def Realized (table column text : String) : Prop :=
  ∃ name, (name = table ∨ ∃ t, c.schemas.find? name = some t ∧ t.group = table) ∧
    ∃ r ∈ c.data.rowsOf name, ∃ v, r.values.find? column = some v ∧ v ≠ .null ∧ v.text = text

/-- Every value of a relation type inside a value of a type is empty, or occurs in the column that
the relation leads to. -/
def Refers (expr : TypeExpr) (v : Value) : Prop :=
  ∀ f target v', Value.Inside c.prototypes expr v (.relation f target) v' → v' ≠ .null →
    ∃ column, c.schemas.targetColumn? target = some column ∧
      c.Realized target.table column v'.text

/-- The values of relation types occur where they lead to. No position is passed over: every value
of a row belongs to a column of its table, and the types of constants and parameters are well
formed. -/
structure Referential : Prop where
  /-- The rows of every table. -/
  rows (e : String × List CastSheet) (he : e ∈ c.data.tables.entries) (sheet : CastSheet)
    (hs : sheet ∈ e.2) (r : CastRow) (hr : r ∈ sheet.rows) :
    ∃ t, c.schemas.find? e.1 = some t ∧
      ∀ x ∈ r.values.entries, ∃ col, t.columns.find? x.1 = some col ∧ c.Refers col.expr x.2
  /-- The constants. -/
  consts (k : CastConst) (hk : k ∈ c.consts) :
    ∃ expr, TypeExpr.parse k.type = .ok expr ∧ c.Refers expr k.value
  /-- The types of parameters. -/
  parameters (p : Prototype) (hp : p ∈ c.prototypes.values) (q : Parameter) (hq : q ∈ p.params) :
    ∃ expr, TypeExpr.parse q.type = .ok expr

end Compiled

namespace Session

variable {s : Session}

/-- The texts of a column are texts of values that are not empty. -/
theorem realized_of_mem_columnTexts (hn : s.schemas.Named) {table column text : String}
    (h : text ∈ s.columnTexts table column) : s.compiled.Realized table column text := by
  obtain ⟨v, hv, rfl⟩ := mem_columnTexts_iff.1 h
  obtain ⟨name, hname, hv⟩ := List.mem_flatMap.1 hv
  rw [List.mem_filter] at hv
  obtain ⟨hv, hnull⟩ := hv
  obtain ⟨r, hr, hfind⟩ := List.mem_filterMap.1 hv
  have hne : v ≠ .null := by
    rintro rfl
    cases hnull
  refine ⟨name, ?_, r, hr, v, hfind, hne, rfl⟩
  rcases List.mem_cons.1 hname with rfl | hname
  · exact .inl rfl
  · obtain ⟨t, ht, rfl⟩ := List.mem_map.1 (List.mem_of_mem_filter hname)
    rw [Schemas.inGroup, List.mem_filter, beq_iff_eq] at ht
    exact .inr ⟨t, hn.find?_name ht.1, ht.2⟩

/-- A value of a relation type inside a value is one of its uses of relations. -/
theorem mem_usesIn (location : Location) (subject : String × String) {expr : TypeExpr}
    {v v' : Value} {f : Flags} {target : Target} {column : String}
    (hinside : Value.Inside s.defs.prototypes expr v (.relation f target) v') (hne : v' ≠ .null)
    (hcolumn : s.schemas.targetColumn? target = some column) :
    { table := target.table, column, value := v'.text, location, subject } ∈
      s.usesIn location subject expr v := by
  have hnull : v'.isNull = false := by
    cases v' <;> first | rfl | exact absurd rfl hne
  have htext : s.relationText? (.relation f target, v') = some (target.table, column, v'.text) := by
    simp [relationText?, hnull, TypeExpr.relation?, hcolumn]
  exact List.mem_map.2 ⟨_, List.mem_filterMap.2
    ⟨_, Value.mem_positions_of_inside hinside, htext⟩, rfl⟩

end Session

namespace Workbook

variable {w : Workbook} {settings : Settings} {s : Session}

/-- A value whose type leads somewhere, and whose uses of relations are looked at, refers to values
that occur. -/
theorem Passed.refers (hp : w.Passed settings s) (location : Location)
    (subject : String × String) {expr : TypeExpr} {v : Value}
    (hrel : ∀ target ∈ expr.relations, (s.schemas.targetColumn? target).isSome = true)
    (huses : s.usesIn location subject expr v ⊆ s.relationUses) : s.compiled.Refers expr v := by
  have hparams := Check.leads_of_prototypes s.respects
    (hp.silent Check.prototypes (by simp [Check.all]))
  have htexts := Check.mem_texts_of_relationValues
    (hp.silent Check.relationValues (by simp [Check.all]))
  intro f target v' hinside hne
  have hsome : (s.schemas.targetColumn? target).isSome = true := by
    rcases Value.mem_relations_of_inside hinside with h | ⟨p, hp, q, hq, expr', hparse, h⟩
    · exact hrel target h
    · obtain ⟨expr'', hparse', hall⟩ := hparams p hp q hq
      cases hparse.symm.trans hparse'
      exact hall target h
  obtain ⟨column, hcolumn⟩ := Option.isSome_iff_exists.1 hsome
  have huse := htexts _ (huses (Session.mem_usesIn location subject hinside hne hcolumn))
  exact ⟨column, hcolumn, Session.realized_of_mem_columnTexts hp.named huse⟩

/-- Every row of a table refers to values that occur. -/
theorem Passed.row_refers (hp : w.Passed settings s) {e : String × List CastSheet}
    (he : e ∈ s.data.tables.entries) {sheet : CastSheet} (hs : sheet ∈ e.2) {r : CastRow}
    (hr : r ∈ sheet.rows) : ∃ t, s.schemas.find? e.1 = some t ∧
      ∀ x ∈ r.values.entries, ∃ c, t.columns.find? x.1 = some c ∧
        s.compiled.Refers c.expr x.2 := by
  have hn := hp.named
  have htypes := Check.leads_of_relationTypes s.respects
    (hp.silent Check.relationTypes (by simp [Check.all]))
  obtain ⟨t, source, bold, -, -, -, ht, hcast⟩ := hp.row_cast he hs hr
  have hmem : t ∈ s.schemas.values := Keyed.mem_values_of_find? ht
  have htn := hn.columns t hmem
  refine ⟨t, ht, fun x hx => ?_⟩
  obtain ⟨c, hc, hname, -⟩ := hcast.column_of_value htn hx
  obtain ⟨expr, hparse, hrel⟩ := htypes.1 t hmem c hc
  cases c.parses.symm.trans hparse
  refine ⟨c, hname ▸ htn.find?_name hc, hp.refers (sheet.locationOf r) (t.name, c.name) hrel ?_⟩
  intro u hu
  have hsheets : s.usesIn (sheet.locationOf r) (t.name, c.name) c.expr x.2 ⊆ s.usesInTable t := by
    intro u hu
    have hfind : s.data.tables.find? t.name = some e.2 := by
      rw [hn.name_eq ht, Keyed.find?_eq_some_iff]
      exact he
    have hvalue : r.values.find? c.name = some x.2 := by
      rw [← hname, Keyed.find?_eq_some_iff]
      exact hx
    refine List.mem_flatMap.2 ⟨sheet, ?_, List.mem_flatMap.2 ⟨r, hr, ?_⟩⟩
    · unfold TableData.sheets
      rw [hfind]
      exact hs
    · refine List.mem_flatMap.2 ⟨c, hc, ?_⟩
      rw [hvalue]
      exact hu
  exact List.mem_append_left _ (List.mem_flatMap.2 ⟨t, hmem, hsheets hu⟩)

/-- Every constant refers to values that occur. -/
theorem Passed.const_refers (hp : w.Passed settings s) {k : CastConst}
    (hk : k ∈ s.data.consts) : ∃ expr, TypeExpr.parse k.type = .ok expr ∧
      s.compiled.Refers expr k.value := by
  have htypes := Check.leads_of_relationTypes s.respects
    (hp.silent Check.relationTypes (by simp [Check.all]))
  have hnodup := Check.nodup_consts_of_keys (hp.silent Check.keys (by simp [Check.all]))
  obtain ⟨c, hc, htype, -⟩ := hp.const_cast hk
  -- without repeated names, no constant is left out of the definitions
  have hdefs : c ∈ s.defs.consts.values := by
    rw [hp.consts, Constants.values_ofList hnodup]
    exact hc
  obtain ⟨expr, hparse, hrel⟩ := htypes.2 c hdefs
  rw [← htype] at hparse
  refine ⟨expr, hparse, hp.refers k.location (k.table, k.name) hrel fun u hu => ?_⟩
  refine List.mem_append_right _ (List.mem_flatMap.2 ⟨k, hk, ?_⟩)
  unfold Session.usesInConst
  rw [hparse]
  exact hu

/-- **Referential integrity.** If a compilation comes to an end, then every value of a relation
type, in every row and every constant and at every depth, is empty or has the text of a value that
is not empty in the column that the relation leads to, in the table it leads to or a table of its
value group. -/
theorem Compiles.referential {c : Compiled} (h : w.Compiles settings c) : c.Referential := by
  obtain ⟨s, hp, rfl⟩ := h.passed
  refine ⟨fun e he sheet hs r hr => hp.row_refers he hs hr, fun k hk => hp.const_refers hk, ?_⟩
  intro p hmem q hq
  obtain ⟨expr, hparse, -⟩ := Check.leads_of_prototypes s.respects
    (hp.silent Check.prototypes (by simp [Check.all])) p hmem q hq
  exact ⟨expr, hparse⟩

/-- Items, and a gift that refers to them in an array and in a call, as a constant does. -/
def gifts : Workbook where
  sheets := [
    { location := ⟨"gifts.xlsx", "Item", none⟩, table := "Item", based := none, group := none,
      columns := [⟨"Id", "*string", .common, false, .ofList [(1, .text "sword")]⟩] },
    { location := ⟨"gifts.xlsx", "Gift", none⟩, table := "Gift", based := none, group := none,
      columns := [
        ⟨"Items", "[$Item]", .common, false, .ofList [(1, .text "sword|sword")]⟩,
        ⟨"Effect", "dsl", .common, false, .ofList [(1, .text "Give(sword)")]⟩] }]
  consts := [{ location := ⟨"gifts.xlsx", "Const", none⟩, table := "Start", name := "Item",
               type := "$Item", scope := .common, value := .text "sword" }]
  prototypes := Prototypes.declare .empty "Give" [{ name := "item", type := "$Item" }]

/-- The gifts compile to two rows that refer to values that occur. -/
theorem gifts_referential :
    ∃ c, gifts.Compiles {} c ∧ c.data.rowCount = 2 ∧ c.Referential := by
  obtain ⟨c, hc, hrows⟩ := exists_compiles gifts {} (·.data.rowCount == 2) (by decide +kernel)
  exact ⟨c, hc, eq_of_beq hrows, Compiles.referential hc⟩

end Workbook

end TypedSheets
