import TypedSheets.Proofs.Compilation.Owners
import TypedSheets.Proofs.Compilation.Tuning
import TypedSheets.Proofs.Recall.Notes

/-!
# Generated columns and the check of relation values

The generated column of a normal row is filled with the cell of the primary key of its owner, but
its type leads to the key of the parent table, which is the group key if there is one. Without a
group key the two agree: what a generated column holds is always found among the keys of the parent
table, and the check of relation values never complains about it.

## Main definitions

* `Session.Realizes` — the value of a relation type is among the texts that it is looked up in.

## Main results

* `Check.fresh_report_relationValues` — what the check of relation values reports.
* `Workbook.Prepares.exists_castAs` — every row in the data is a row of a sheet.
* `Workbook.Prepares.realizes_parent` — what a generated column holds is found.
* `Workbook.Prepares.parents_found` — the check does not complain about generated columns.
* `Workbook.gates_missed` — it does if the parent table has a group key.
-/

namespace TypedSheets

open Recall

/-! ### What the check of relation values reports -/

namespace Session

/-- The value of a relation type is among the texts that it is looked up in. -/
def Realizes (s : Session) (u : RelationUse) : Prop :=
  u.value ∈ s.columnTexts u.table u.column

instance (s : Session) (u : RelationUse) : Decidable (s.Realizes u) :=
  inferInstanceAs (Decidable (_ ∈ _))

/-- The values of relation types that are not found. -/
def unrealized (s : Session) : List RelationUse :=
  s.relationUses.filter fun u => ¬ s.Realizes u

end Session

namespace Check

variable {s : Session} {w : Workbook}

theorem fresh_useFaults (u : RelationUse) :
    (useFaults s u).fresh = if s.Realizes u then [] else [missingValue u] := by
  have htexts : (s.realizedValues u.table u.column).fresh = s.columnTexts u.table u.column := rfl
  rw [useFaults, fresh_bind, htexts, fresh_pure]
  by_cases hu : s.Realizes u
  · rw [if_pos hu, if_pos (List.contains_iff_mem.2 hu)]
  · rw [if_neg hu, if_neg (mt List.contains_iff_mem.1 hu)]

theorem flatMap_useFaults (uses : List RelationUse) :
    (uses.flatMap fun u => (useFaults s u).fresh) =
      (uses.filter fun u => ¬ s.Realizes u).map missingValue := by
  induction uses with
  | nil => rfl
  | cons u uses ih =>
    rw [List.flatMap_cons, ih, fresh_useFaults]
    by_cases hu : s.Realizes u
    · rw [if_pos hu, List.filter_cons_of_neg (by simpa using hu), List.nil_append]
    · rw [if_neg hu, List.filter_cons_of_pos (by simpa using hu), List.map_cons,
        List.singleton_append]

/-- **The check of relation values reports the values that are not found**, in their order. -/
theorem fresh_report_relationValues (s : Session) (w : Workbook) :
    (relationValues.report s w).fresh = .ok (s.unrealized.map missingValue) := by
  have hitems : List.Forall₂ (fun item found => item.run.fresh = .ok found)
      (relationValues.items s w) ((chunksOf s.settings.usesPerJob s.relationUses).map fun uses =>
        uses.flatMap fun u => (useFaults s u).fresh) := by
    show List.Forall₂ _ ((chunksOf s.settings.usesPerJob s.relationUses).map (usesFaults s)) _
    rw [List.forall₂_map_left_iff, List.forall₂_map_right_iff, List.forall₂_same]
    intro uses _
    exact fresh_usesFaults s uses
  rw [fresh_report_of_items hitems, ← List.flatMap_def, ← List.flatMap_assoc, List.flatMap_id',
    flatten_chunksOf, flatMap_useFaults]
  rfl

end Check

/-! ### Values of relation types in the data -/

/-- The rows of a table are stored under it, each with the place of its sheet. -/
theorem TableData.mem_placed {d : TableData} {p : PlacedRow} :
    p ∈ d.placed ↔ ∃ sheet ∈ d.sheets p.1, sheet.location = p.2.1 ∧ p.2.2 ∈ sheet.rows := by
  obtain ⟨table, place, r⟩ := p
  constructor
  · intro h
    obtain ⟨e, he, h⟩ := List.mem_flatMap.1 h
    obtain ⟨q, hq, hp⟩ := List.mem_map.1 h
    obtain ⟨sheet, hsheet, hq⟩ := List.mem_flatMap.1 hq
    obtain ⟨r', hr, rfl⟩ := List.mem_map.1 hq
    cases hp
    refine ⟨sheet, ?_, rfl, hr⟩
    rw [sheets, Keyed.find?_eq_some_iff.2 he]
    exact hsheet
  · rintro ⟨sheet, hsheet, rfl, hr⟩
    dsimp only at hsheet hr ⊢
    unfold sheets at hsheet
    cases hfind : d.tables.find? table with
    | none =>
      rw [hfind] at hsheet
      cases hsheet
    | some all =>
      rw [hfind] at hsheet
      exact List.mem_flatMap.2 ⟨(table, all), Keyed.mem_of_find? hfind, List.mem_map_of_mem
        (List.mem_flatMap.2 ⟨sheet, hsheet, List.mem_map_of_mem hr⟩)⟩

namespace Session

variable {s : Session}

/-- The texts of a column are those of the values in the rows of its table, among others. -/
theorem mem_columnTexts {p : PlacedRow} (hp : p ∈ s.data.placed) {column : String} {v : Value}
    (hv : p.2.2.values.find? column = some v) (hnull : v.isNull = false) :
    v.text ∈ s.columnTexts p.1 column := by
  obtain ⟨sheet, hsheet, -, hr⟩ := TableData.mem_placed.1 hp
  have hrow : p.2.2 ∈ s.data.rowsOf p.1 := List.mem_flatMap.2 ⟨sheet, hsheet, hr⟩
  have hvalue : v ∈ s.columnValues p.1 column :=
    List.mem_flatMap.2 ⟨p.1, List.mem_cons_self .., List.mem_filter.2
      ⟨List.mem_filterMap.2 ⟨p.2.2, hrow, hv⟩, by rw [hnull]; rfl⟩⟩
  exact mem_columnTexts_iff.2 ⟨v, hvalue, rfl⟩

/-- A value of a relation type in a table belongs to a column of the table, and to a row that is
stored under it. -/
theorem exists_of_mem_usesInTable {t : Schema} {u : RelationUse} (h : u ∈ s.usesInTable t) :
    ∃ p ∈ s.data.placed, p.1 = t.name ∧ ∃ c ∈ t.columns.values, ∃ v,
      p.2.2.values.find? c.name = some v ∧ u.subject = (t.name, c.name) ∧
        u ∈ s.usesIn u.location u.subject c.expr v := by
  obtain ⟨sheet, hsheet, h⟩ := List.mem_flatMap.1 h
  obtain ⟨r, hr, h⟩ := List.mem_flatMap.1 h
  obtain ⟨c, hc, h⟩ := List.mem_flatMap.1 h
  cases hv : r.values.find? c.name with
  | none =>
    rw [hv] at h
    cases h
  | some v =>
    rw [hv] at h
    have hplace : u.location = sheet.locationOf r ∧ u.subject = (t.name, c.name) := by
      obtain ⟨e, -, rfl⟩ := List.mem_map.1 h
      exact ⟨rfl, rfl⟩
    refine ⟨(t.name, sheet.location, r), TableData.mem_placed.2 ⟨sheet, hsheet, rfl, hr⟩, rfl,
      c, hc, v, hv, hplace.2, ?_⟩
    rw [hplace.1, hplace.2]
    exact h

/-- A value of a relation is looked up where the relation leads to, unless it is empty. -/
theorem usesIn_relation {location : Location} {subject : String × String} {f : Flags}
    {target : Target} {v : Value} {u : RelationUse}
    (h : u ∈ s.usesIn location subject (.relation f target) v) :
    v.isNull = false ∧ s.schemas.targetColumn? target = some u.column ∧
      u.table = target.table ∧ u.value = v.text := by
  have hpositions : v.positions s.defs.prototypes (.relation f target) =
      [(.relation f target, v)] := by
    cases v <;> simp [Value.positions]
  rw [usesIn, hpositions, List.filterMap_cons, List.filterMap_nil] at h
  cases hnull : v.isNull with
  | true =>
    rw [relationText?, hnull] at h
    cases h
  | false =>
    cases hcolumn : s.schemas.targetColumn? target with
    | none =>
      simp [relationText?, hnull, TypeExpr.relation?, hcolumn] at h
    | some column =>
      have hu : u = ⟨target.table, column, v.text, location, subject⟩ := by
        simpa [relationText?, hnull, TypeExpr.relation?, hcolumn] using h
      subst hu
      exact ⟨rfl, rfl, rfl, rfl⟩

end Session

/-! ### Generated columns -/

namespace Workbook

variable {w : Workbook} {settings : Settings} {workers : Nat} {s : Session} {sheet : Sheet}

/-- Every row in the data is a row of a sheet. -/
theorem Prepares.exists_castAs (h : w.Prepares settings workers s) {p : PlacedRow}
    (hp : p ∈ s.data.placed) : ∃ x ∈ w.rows, s.CastAs x p := by
  obtain ⟨placed, hall, hperm⟩ := h.exists_placed
  exact hall.exists_of_mem_right (hperm.mem_iff.1 hp)

theorem Prepares.named (h : w.Prepares settings workers s) : s.schemas.Named := by
  obtain ⟨s, data, hs, -, rfl⟩ := h.exists_resolved
  exact resolved_named (s := s) hs

/-- A row of a table has a value in each of its columns. -/
theorem Prepares.exists_value_of_row (h : w.Prepares settings workers s) {t : Schema}
    (ht : t ∈ s.schemas.values) {r : CastRow} (hr : r ∈ s.data.rowsOf t.name) {c : SchemaColumn}
    (hc : c ∈ t.columns.values) : ∃ v, r.values.find? c.name = some v := by
  obtain ⟨sheet, hsheet, hr⟩ := List.mem_flatMap.1 hr
  have hp : (t.name, sheet.location, r) ∈ s.data.placed :=
    TableData.mem_placed.2 ⟨sheet, hsheet, rfl, hr⟩
  obtain ⟨x, -, hcast⟩ := h.exists_castAs hp
  obtain ⟨t', ht', hall⟩ := hcast.values
  obtain rfl : t = t' := Option.some.inj ((h.named.find?_name ht).symm.trans ht')
  obtain ⟨e, he, hname, -⟩ := hall.exists_of_mem_left hc
  exact ⟨e.2, Keyed.find?_eq_some_iff.2 (hname ▸ he)⟩

/-- The rows under the name of a table are normal rows of its sheets, if no other tier has the
table; all of these sheets have a bold tier if one of them does. -/
theorem Prepares.normal_of_castAs (h : w.Prepares settings workers s) (hsheet : sheet ∈ w.sheets)
    (hbold : sheet.hasBold = true) (halone : w.Undisplaced settings sheet.table false)
    {x : SheetRow} (hx : x ∈ w.rows) {p : PlacedRow} (hcast : s.CastAs x p)
    (hp : p.1 = sheet.table) :
    x.bold = false ∧ x.sheet.table = sheet.table ∧ x.sheet.hasBold = true := by
  obtain ⟨s, data, hs, -, rfl⟩ := h.exists_resolved
  obtain ⟨schemas, hschemas, -⟩ := schemas_of_resolved hs
  obtain ⟨hxsheet, hrow⟩ := mem_rows.1 hx
  obtain ⟨first, hfirst, htable⟩ := exists_first hxsheet
  have htier : first.tier x.bold ≠ [] := tier_ne_nil_of_first hschemas hxsheet hfirst htable
    (Sheet.tier_ne_nil_of_rowsOf (List.ne_nil_of_mem hrow))
  have hname : tierTable settings first.table x.bold = tierTable settings sheet.table false := by
    have := hcast.table
    rw [hp, resolved_settings (s := s) hs, ← htable] at this
    exact this.symm
  obtain ⟨hsame, hnormal⟩ := halone first hfirst x.bold htier hname
  refine ⟨hnormal, htable.symm.trans hsame, ?_⟩
  have hboth : first.tier true ≠ [] := tier_ne_nil_of_first hschemas hsheet hfirst hsame
    (Sheet.tier_ne_nil_of_hasBold hbold)
  exact Sheet.hasBold_of_tier_ne_nil (tier_ne_nil_of_table hschemas hxsheet hfirst htable hboth)

/-- The generated column of the table of a normal tier is a relation to the parent table. -/
theorem Prepares.expr_of_generated (h : w.Prepares settings workers s) (hsheet : sheet ∈ w.sheets)
    (hbold : sheet.hasBold = true) (halone : w.Undisplaced settings sheet.table false)
    (hname : Text.isIdentifier (settings.parentTable sheet.table).toList = true) {row : Nat}
    (hrow : row ∈ sheet.rowsOf false) {t : Schema} (ht : t ∈ s.schemas.values)
    (htable : t.name = sheet.table) {c : SchemaColumn} (hc : c ∈ t.columns.values)
    (hcname : c.name = settings.parentColumn) :
    c.expr = .relation { key := .group } ⟨settings.parentTable sheet.table, none⟩ := by
  obtain ⟨-, t', l, ht', hl, hlname, hltype⟩ := h.exists_link hsheet hbold hrow halone
  have hfind : s.target? sheet false = some t := by
    rw [← h.named.find?_name ht, htable]
    rfl
  cases ht'.symm.trans hfind
  have hcolumns := h.named.columns t ht
  have hsame := hcolumns.find?_name hl
  rw [hlname, ← hcname, hcolumns.find?_name hc] at hsame
  have hparses := c.parses
  rw [Option.some.inj hsame, hltype, Schemas.parse_link hname] at hparses
  rw [Option.some.inj hsame]
  exact (Except.ok.inj hparses).symm

/-- What a generated column holds is found among the keys of the parent table. -/
theorem Prepares.mem_parentTexts (h : w.Prepares settings workers s) (hsheet : sheet ∈ w.sheets)
    (hbold : sheet.hasBold = true) (halone : w.Undisplaced settings sheet.table false)
    (hname : Text.isIdentifier (settings.parentTable sheet.table).toList = true)
    (hgroup : (s.target? sheet true).bind Schema.groupKey? = none) {row : Nat}
    (hrow : row ∈ sheet.rowsOf false) {p : PlacedRow} (hp : s.CastAs ⟨sheet, false, row⟩ p)
    {v : Value} (hv : p.2.2.values.find? settings.parentColumn = some v)
    (hnull : v.isNull = false) :
    ∃ key, s.schemas.keyOf? (settings.parentTable sheet.table) = some key ∧
      v.text ∈ s.columnTexts (settings.parentTable sheet.table) key.name := by
  obtain ⟨rfl, t, l, ht, hl, hlname, hltype⟩ := h.exists_link hsheet hbold hrow halone
  obtain ⟨-, cell, -, hsource, -⟩ := hp.exists_value ht hl
  have hparent : s.parentCell? sheet row = some cell := by
    rw [Session.sourceCell?, hbold, hlname] at hsource
    simpa using hsource
  obtain ⟨key, column, q, hkeyed, howns, hcell⟩ := Session.owner_of_parentCell? hparent
  have hcolumn : column.bold = true ∧ column.name = key.name := by
    simpa using List.find?_some hkeyed.found
  have hq : q ∈ sheet.rowsOf true :=
    Sheet.mem_rowsOf.2 ⟨column, List.mem_of_find?_eq_some hkeyed.found, hcolumn.1, howns.1.1⟩
  obtain ⟨a, ha, hacast⟩ := h.exists_stored (x := ⟨sheet, true, q⟩) (mem_rows.2 ⟨hsheet, hq⟩)
  obtain ⟨v', hv', hkey⟩ :=
    hp.value_eq hacast ht hl hltype hname hgroup hkeyed hsource hcell
  rw [hlname] at hv'
  cases hv.symm.trans hv'
  obtain ⟨parent, hparent, hprimary⟩ := Option.bind_eq_some_iff.1 hkeyed.primary
  rw [hparent, Option.bind_some] at hgroup
  have hfind : s.schemas.find? (s.settings.parentTable sheet.table) = some parent := hparent
  have htable : a.1 = s.settings.parentTable sheet.table := hacast.table
  refine ⟨key, ?_, htable ▸ Session.mem_columnTexts ha hkey hnull⟩
  rw [Schemas.keyOf?, hfind, Option.bind_some, Schema.key?, hgroup, Option.none_or, hprimary]

/-- A value of a relation type in a generated column leads to the key of the parent table, and is
found there. -/
theorem Prepares.realizes_parent (h : w.Prepares settings workers s) (hsheet : sheet ∈ w.sheets)
    (hbold : sheet.hasBold = true) (halone : w.Undisplaced settings sheet.table false)
    (hname : Text.isIdentifier (settings.parentTable sheet.table).toList = true)
    (hgroup : (s.target? sheet true).bind Schema.groupKey? = none) {u : RelationUse}
    (hu : u ∈ s.schemas.values.flatMap s.usesInTable)
    (hsubject : u.subject = (sheet.table, settings.parentColumn)) :
    u.table = settings.parentTable sheet.table ∧
      s.schemas.targetColumn? ⟨settings.parentTable sheet.table, none⟩ = some u.column ∧
        s.Realizes u := by
  obtain ⟨t, ht, hu⟩ := List.mem_flatMap.1 hu
  obtain ⟨p, hp, hpt, c, hc, v, hv, husubject, huse⟩ := Session.exists_of_mem_usesInTable hu
  obtain ⟨htable, hcname⟩ := Prod.mk.inj (husubject.symm.trans hsubject)
  obtain ⟨⟨xsheet, bold, row⟩, hx, hcast⟩ := h.exists_castAs hp
  obtain ⟨hnormal, hxtable, hxbold⟩ :=
    h.normal_of_castAs hsheet hbold halone hx hcast (hpt.trans htable)
  dsimp only at hnormal hxtable hxbold
  subst hnormal
  obtain ⟨hxsheet, hrow⟩ : xsheet ∈ w.sheets ∧ row ∈ xsheet.rowsOf false := mem_rows.1 hx
  -- the row may stand in another sheet of the table, which has the same tables
  have htarget : s.target? xsheet true = s.target? sheet true := by
    rw [Session.target?, Session.target?, hxtable]
  rw [← htarget] at hgroup
  rw [← hxtable] at halone hname htable ⊢
  rw [h.expr_of_generated hxsheet hxbold halone hname hrow ht htable hc hcname] at huse
  obtain ⟨hnull, hcolumn, hutable, hvalue⟩ := Session.usesIn_relation huse
  obtain ⟨key, hkey, htext⟩ :=
    h.mem_parentTexts hxsheet hxbold halone hname hgroup hrow hcast (hcname ▸ hv) hnull
  have hucolumn : u.column = key.name := by
    rw [Schemas.targetColumn?, hkey] at hcolumn
    exact (Option.some.inj hcolumn).symm
  refine ⟨hutable, hcolumn, ?_⟩
  rw [Session.Realizes, hutable, hvalue, hucolumn]
  exact htext

/-- **The check of relation values has no complaint about a generated column**, if the parent table
has no group key. Let a workbook be prepared, and let a sheet of it have a bold tier whose table has
no group key and a name that can be read, and a normal tier with a table of its own. Then every
value in the generated column of the table leads to the key of the parent table, and is found there.
With any number of workers the check reports just the values of relation types that are not found,
and none of these is in a generated column, though a constant may be named like one. -/
theorem Prepares.parents_found (h : w.Prepares settings workers s) (hsheet : sheet ∈ w.sheets)
    (hbold : sheet.hasBold = true) (halone : w.Undisplaced settings sheet.table false)
    (hname : Text.isIdentifier (settings.parentTable sheet.table).toList = true)
    (hgroup : (s.target? sheet true).bind Schema.groupKey? = none) :
    (∀ u ∈ s.schemas.values.flatMap s.usesInTable,
      u.subject = (sheet.table, settings.parentColumn) →
        u.table = settings.parentTable sheet.table ∧
          s.schemas.targetColumn? ⟨settings.parentTable sheet.table, none⟩ = some u.column ∧
            s.Realizes u) ∧
    ∀ {workers' m r m'}, Memory.Meets m s.exact →
      Check.relationValues.Reports s w workers' m r m' →
        r = .ok (s.unrealized.map Check.missingValue) ∧
          ∀ u ∈ s.unrealized, u.subject = (sheet.table, settings.parentColumn) →
            u ∈ s.data.consts.flatMap s.usesInConst := by
  have hfound {u : RelationUse} (hu : u ∈ s.schemas.values.flatMap s.usesInTable)
      (hsubject : u.subject = (sheet.table, settings.parentColumn)) :=
    h.realizes_parent hsheet hbold halone hname hgroup hu hsubject
  refine ⟨fun u => hfound, fun hm hreports => ?_⟩
  obtain ⟨hr, -⟩ := hreports.fresh (Check.plain_examine (by simp [Check.all])) hm
  refine ⟨hr.trans (Check.fresh_report_relationValues s w), fun u hu hsubject => ?_⟩
  obtain ⟨hu, hmissing⟩ := List.mem_filter.1 hu
  exact (List.mem_append.1 hu).resolve_left fun htable =>
    of_decide_eq_true hmissing (hfound htable hsubject).2.2

/-- The dishes of the menu belong to a course with a name, which is found. -/
theorem courses_parents_found : ∃ s, courses.Prepares {} 3 s ∧
    s.relationUses.map RelationUse.value = ["soups", "soups"] ∧
    (∀ u ∈ s.relationUses, u.table = "DishAttribute" ∧ s.Realizes u) ∧
    ∃ m', Check.relationValues.Reports s courses 2 {} (.ok []) m' := by
  let menu := courses.sheets[0]
  have hmenu : menu ∈ courses.sheets := List.getElem_mem _
  obtain ⟨s, hs, hp⟩ := courses.exists_prepares {} (p := fun s =>
    ((s.target? menu true).bind Schema.groupKey?).isNone && s.data.consts.isEmpty &&
      decide (s.relationUses.map RelationUse.value = ["soups", "soups"]) &&
      s.relationUses.all fun u => u.subject = ("Dish", "Parent")) (by decide +kernel) 3
  simp only [Bool.and_eq_true, Option.isNone_iff_eq_none, decide_eq_true_eq, List.isEmpty_iff,
    List.all_eq_true] at hp
  obtain ⟨⟨⟨hgroup, hconsts⟩, hvalues⟩, hsubject⟩ := hp
  obtain ⟨hfound, hreport⟩ :=
    hs.parents_found hmenu (by decide) (by decide +kernel) (by decide +kernel) hgroup
  have hall : ∀ u ∈ s.relationUses, u.table = "DishAttribute" ∧ s.Realizes u := by
    intro u hu
    have htables : u ∈ s.schemas.values.flatMap s.usesInTable := by
      rw [Session.relationUses, hconsts, List.flatMap_nil, List.append_nil] at hu
      exact hu
    obtain ⟨htable, -, hrealizes⟩ := hfound u htables (hsubject u hu)
    exact ⟨htable.trans (by decide), hrealizes⟩
  have hnone : s.unrealized = [] :=
    List.filter_eq_nil_iff.2 fun u hu => by simpa using (hall u hu).2
  obtain ⟨r, m', hruns⟩ := Pool.exists_runs Check.relationValues.name false 2
    (fun item => Outcome.ofAttempt (Check.examine item)) (Check.relationValues.items s courses) {}
  obtain ⟨hr, -⟩ := hreport (Memory.meets_empty _) ⟨r, hruns, rfl⟩
  rw [hnone] at hr
  exact ⟨s, hs, hvalues, hall, m', r, hruns, hr.symm⟩

/-- Stages of an area with a code of its own: the gate stands below the area 7 with the code 1. -/
def gates : Workbook where
  sheets := [
    { location := ⟨"stage.xlsx", "Stage", none⟩, table := "Stage", based := none, group := none,
      columns := [
        ⟨"Area", "(int)", .common, true, .ofList [(1, .text "7")]⟩,
        ⟨"Code", "*int", .common, true, .ofList [(1, .text "1")]⟩,
        ⟨"Name", "string", .common, false, .ofList [(2, .text "gate")]⟩] }]

/-- **The generated column holds the code, which is missed among the areas.** -/
theorem gates_missed : ∃ s, gates.Prepares {} 1 s ∧
    ((Check.relationValues.report s gates).run {}).1 = .ok [Check.missingValue
      ⟨"StageAttribute", "Area", "1", ⟨"stage.xlsx", "Stage", some 2⟩, ("Stage", "Parent")⟩] := by
  obtain ⟨s, hs, hp⟩ := gates.exists_prepares {} (p := fun s =>
    decide ((Check.relationValues.report s gates).runOn [] = .ok [Check.missingValue
      ⟨"StageAttribute", "Area", "1", ⟨"stage.xlsx", "Stage", some 2⟩, ("Stage", "Parent")⟩]))
    (by decide +kernel) 1
  refine ⟨s, hs, ?_⟩
  rw [fst_run_empty]
  exact of_decide_eq_true hp

end Workbook

end TypedSheets
