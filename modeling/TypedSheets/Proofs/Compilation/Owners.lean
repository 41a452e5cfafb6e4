import Mathlib.Order.Bounds.Basic
import TypedSheets.Proofs.Compilation.Rows
import TypedSheets.Proofs.Compilation.Tiers
import TypedSheets.Proofs.Relation.Roots

/-!
# Owners of rows

A normal row of a sheet with a bold tier belongs to a bold row above it: its generated column holds
the value that the primary key has in that row. The owner is the nearest row above that has a cell
in the key column. It is the nearest bold row just if that row has a key: a bold row without one, be
its key nullable or a string, is passed over.

## Main definitions

* `Session.KeyedBy` — the key column of a sheet.
* `Session.Owns` — the bold row that a normal row belongs to.

## Main results

* `CellMap.isGreatest_of_lastBefore?` — the last cell before a row.
* `Workbook.Prepares.owned` — a row holds the key of its owner.
* `Workbook.courses_disowned` — a row below a bold row without a key.
-/

namespace TypedSheets

/-! ### Cells above a row -/

namespace CellMap

variable {m : CellMap} {row : Nat} {cell : Cell}

/-- A cell is the one of its row. -/
theorem get?_of_mem {e : Nat × Cell} (h : e ∈ m.entries) : m.get? e.1 = some e.2 := by
  unfold get?
  cases hfind : m.entries.find? fun f => f.1 == e.1 with
  | none =>
    have hnone := List.find?_eq_none.1 hfind e h
    simp at hnone
  | some f =>
    have hrow : f.1 = e.1 := by simpa using List.find?_some hfind
    have hnodup : (m.entries.map Prod.fst).Nodup := by
      rw [List.Nodup, List.pairwise_map]
      exact m.ascending.imp Nat.ne_of_lt
    rw [List.inj_on_of_nodup_map hnodup (List.mem_of_find?_eq_some hfind) h hrow]
    rfl

/-- The entries before a row are in front of all others. -/
theorem takeWhile_eq_filter (row : Nat) {l : List (Nat × Cell)}
    (h : l.Pairwise fun a b => a.1 < b.1) :
    l.takeWhile (fun e => e.1 < row) = l.filter fun e => e.1 < row := by
  induction l with
  | nil => rfl
  | cons e l ih =>
    obtain ⟨hfirst, hrest⟩ := List.pairwise_cons.1 h
    by_cases hrow : e.1 < row
    · rw [List.takeWhile_cons_of_pos (by simpa using hrow),
        List.filter_cons_of_pos (by simpa using hrow), ih hrest]
    · rw [List.takeWhile_cons_of_neg (by simpa using hrow),
        List.filter_cons_of_neg (by simpa using hrow), eq_comm, List.filter_eq_nil_iff]
      intro f hf
      have := hfirst f hf
      simp only [decide_eq_true_eq]
      omega

/-- The last cell before a row is that of the greatest row with a cell among the rows before. -/
theorem isGreatest_of_lastBefore? (h : m.lastBefore? row = some cell) :
    ∃ p, IsGreatest {q | q ∈ m.rows ∧ q < row} p ∧ m.get? p = some cell := by
  obtain ⟨e, he, rfl⟩ := Option.map_eq_some_iff.1 h
  rw [takeWhile_eq_filter row m.ascending] at he
  obtain ⟨before, hbefore⟩ := List.getLast?_eq_some_iff.1 he
  obtain ⟨hentry, hrow⟩ := List.mem_filter.1 (List.mem_of_getLast? he)
  refine ⟨e.1, ⟨⟨List.mem_map_of_mem hentry, by simpa using hrow⟩, ?_⟩, get?_of_mem hentry⟩
  rintro q ⟨hq, hlt⟩
  obtain ⟨f, hf, rfl⟩ := List.mem_map.1 hq
  have hmem : f ∈ before ++ [e] := by
    rw [← hbefore, List.mem_filter]
    exact ⟨hf, by simpa using hlt⟩
  rcases List.mem_append.1 hmem with hf | hf
  · have hascending := m.ascending.filter fun e => e.1 < row
    rw [hbefore] at hascending
    exact Nat.le_of_lt
      ((List.pairwise_append.1 hascending).2.2 f hf e (List.mem_singleton_self e))
  · cases List.mem_singleton.1 hf
    exact Nat.le_refl _

end CellMap

namespace Session

variable {s : Session}

/-- The key column of a sheet: its bold column with the name of the primary key of its parent
table. -/
structure KeyedBy (s : Session) (sheet : Sheet) (key : SchemaColumn) (column : SheetColumn) :
    Prop where
  /-- The primary key of the parent table. -/
  primary : (s.target? sheet true).bind Schema.primaryKey? = some key
  /-- The column. -/
  found : sheet.column? true key.name = some column

/-- A bold row owns the normal rows below it, as long as no other row with a key comes between. -/
def Owns (column : SheetColumn) (p row : Nat) : Prop :=
  IsGreatest {q | q ∈ column.cells.rows ∧ q < row} p

/-- The key above a row is that of its owner. -/
theorem owner_of_parentCell? {sheet : Sheet} {row : Nat} {cell : Cell}
    (h : s.parentCell? sheet row = some cell) :
    ∃ key column p, s.KeyedBy sheet key column ∧ Owns column p row ∧
      column.cells.get? p = some cell := by
  unfold parentCell? at h
  obtain ⟨parent, hparent, h⟩ := Option.bind_eq_some_iff.1 h
  obtain ⟨key, hkey, h⟩ := Option.bind_eq_some_iff.1 h
  obtain ⟨column, hcolumn, h⟩ := Option.bind_eq_some_iff.1 h
  obtain ⟨p, hp, hcell⟩ := CellMap.isGreatest_of_lastBefore? h
  exact ⟨key, column, p, ⟨by rw [hparent]; exact hkey, hcolumn⟩, hp, hcell⟩

/-- A row that is cast has a value for each column of its table, cast from the cell that goes into
the column. -/
theorem CastAs.exists_value {x : SheetRow} {p : PlacedRow} (h : s.CastAs x p) {t : Schema}
    (ht : s.target? x.sheet x.bold = some t) {c : SchemaColumn} (hc : c ∈ t.columns.values) :
    ∃ v cell, p.2.2.values.find? c.name = some v ∧
      s.sourceCell? x.sheet x.bold x.row c.name = some cell ∧
        (s.defs.cast c.type cell).run.fresh = .ok v := by
  obtain ⟨t', ht', hall⟩ := h.values
  rw [h.table] at ht'
  cases ht.symm.trans ht'
  obtain ⟨e, he, hname, cell, hsource, hcast⟩ := hall.exists_of_mem_left hc
  exact ⟨e.2, cell, Keyed.find?_eq_some_iff.2 (hname ▸ he), hsource, hcast⟩

/-- A key has its cell from the key column. -/
theorem KeyedBy.sourceCell? {sheet : Sheet} {key : SchemaColumn} {column : SheetColumn} {p : Nat}
    {cell : Cell} (h : s.KeyedBy sheet key column) (hcell : column.cells.get? p = some cell) :
    s.sourceCell? sheet true p key.name = some cell := by
  rw [Session.sourceCell?, h.found, Option.bind_some, hcell]
  simp

/-- A generated column that leads to the parent table has the value of the primary key, where both
are cast from one cell. -/
theorem CastAs.value_eq {sheet : Sheet} {row p : Nat} {r a : PlacedRow}
    (hr : s.CastAs ⟨sheet, false, row⟩ r) (ha : s.CastAs ⟨sheet, true, p⟩ a) {t : Schema}
    (ht : s.target? sheet false = some t) {l : SchemaColumn} (hl : l ∈ t.columns.values)
    (hltype : l.type = "($" ++ s.settings.parentTable sheet.table ++ ")")
    (hname : Text.isIdentifier (s.settings.parentTable sheet.table).toList = true)
    (hgroup : (s.target? sheet true).bind Schema.groupKey? = none) {key : SchemaColumn}
    {column : SheetColumn} (hkeyed : s.KeyedBy sheet key column) {cell : Cell}
    (hparent : s.sourceCell? sheet false row l.name = some cell)
    (hcell : column.cells.get? p = some cell) :
    ∃ v, r.2.2.values.find? l.name = some v ∧ a.2.2.values.find? key.name = some v := by
  obtain ⟨parent, hfind, hprimary⟩ := Option.bind_eq_some_iff.1 hkeyed.primary
  rw [hfind, Option.bind_some] at hgroup
  obtain ⟨v, c, hv, hsource, hcast⟩ := hr.exists_value ht hl
  cases hparent.symm.trans hsource
  obtain ⟨v', c', hv', hsource', hcast'⟩ :=
    ha.exists_value hfind (List.mem_of_find?_eq_some hprimary)
  cases (hkeyed.sourceCell? hcell).symm.trans hsource'
  rw [hltype] at hcast
  obtain rfl := Definitions.cast_eq_of_key hname hfind hgroup hprimary hcast' hcast
  exact ⟨v', hv, hv'⟩

end Session

namespace Workbook

variable {w : Workbook} {settings : Settings} {workers : Nat} {s : Session}

/-- The rows in the data of a prepared workbook are those of its sheets. -/
theorem Prepares.exists_placed (h : w.Prepares settings workers s) :
    ∃ placed, List.Forall₂ s.CastAs w.rows placed ∧ s.data.placed.Perm placed := by
  obtain ⟨s, data, hs, hdata, rfl⟩ := h.exists_resolved
  obtain ⟨placed, hall, hperm⟩ := Session.castAs_of_castAll (resolved_named hs) hdata
  exact ⟨placed, hall.imp fun x p hp =>
    { table := hp.table, location := hp.location, row := hp.row, values := hp.values }, hperm⟩

/-- The rows of a prepared workbook are all stored. -/
theorem Prepares.exists_stored (h : w.Prepares settings workers s) {x : SheetRow}
    (hx : x ∈ w.rows) : ∃ p ∈ s.data.placed, s.CastAs x p := by
  obtain ⟨placed, hall, hperm⟩ := h.exists_placed
  obtain ⟨p, hp, hcast⟩ := hall.exists_of_mem_left hx
  exact ⟨p, hperm.mem_iff.2 hp, hcast⟩

/-- The generated column of a normal tier with a table of its own. -/
theorem Prepares.exists_link (h : w.Prepares settings workers s) {sheet : Sheet}
    (hsheet : sheet ∈ w.sheets) (hbold : sheet.hasBold = true) {row : Nat}
    (hrow : row ∈ sheet.rowsOf false) (halone : w.Undisplaced settings sheet.table false) :
    s.settings = settings ∧ ∃ t l, s.target? sheet false = some t ∧ l ∈ t.columns.values ∧
      l.name = settings.parentColumn ∧
        l.type = "($" ++ settings.parentTable sheet.table ++ ")" := by
  obtain ⟨s, data, hs, -, rfl⟩ := h.exists_resolved
  have hnormal : sheet.tier false ≠ [] := Sheet.tier_ne_nil_of_rowsOf (List.ne_nil_of_mem hrow)
  exact ⟨resolved_settings (s := s) hs,
    exists_link_of_undisplaced (s := s) hs hsheet hbold hnormal halone⟩

/-- **A normal row belongs to the nearest row above it with a key.** Let a workbook be prepared, and
let a sheet of it have a bold tier whose table has no group key and a name that can be read, and a
normal tier with a table of its own. Then every normal row of the sheet has an owner, a bold row
above it. Both rows are stored, and the generated column of the one has the value that the primary
key has in the other. The owner is the nearest bold row above just if that row has a key. -/
theorem Prepares.owned (h : w.Prepares settings workers s) {sheet : Sheet}
    (hsheet : sheet ∈ w.sheets) (hbold : sheet.hasBold = true)
    (halone : w.Undisplaced settings sheet.table false)
    (hname : Text.isIdentifier (settings.parentTable sheet.table).toList = true)
    (hgroup : (s.target? sheet true).bind Schema.groupKey? = none) {row : Nat}
    (hrow : row ∈ sheet.rowsOf false) :
    ∃ key column p, s.KeyedBy sheet key column ∧ Session.Owns column p row ∧
      p ∈ sheet.rowsOf true ∧
      (∀ q, IsGreatest {q | q ∈ sheet.rowsOf true ∧ q < row} q →
        (q = p ↔ q ∈ column.cells.rows)) ∧
      (∃ r ∈ s.data.placed, s.CastAs ⟨sheet, false, row⟩ r) ∧
      (∃ a ∈ s.data.placed, s.CastAs ⟨sheet, true, p⟩ a) ∧
      ∀ r a, s.CastAs ⟨sheet, false, row⟩ r → s.CastAs ⟨sheet, true, p⟩ a →
        ∃ v, r.2.2.values.find? settings.parentColumn = some v ∧
          a.2.2.values.find? key.name = some v := by
  have hx : ⟨sheet, false, row⟩ ∈ w.rows := mem_rows.2 ⟨hsheet, hrow⟩
  obtain ⟨r, hr, hrcast⟩ := h.exists_stored hx
  obtain ⟨rfl, t, l, ht, hl, hlname, hltype⟩ := h.exists_link hsheet hbold hrow halone
  obtain ⟨-, cell, -, hsource, -⟩ := hrcast.exists_value ht hl
  have hparent : s.parentCell? sheet row = some cell := by
    rw [Session.sourceCell?, hbold, hlname] at hsource
    simpa using hsource
  obtain ⟨key, column, p, hkeyed, howns, hcell⟩ := Session.owner_of_parentCell? hparent
  have hcolumn : column.bold = true ∧ column.name = key.name := by
    simpa using List.find?_some hkeyed.found
  have hbolds {q : Nat} (hq : q ∈ column.cells.rows) : q ∈ sheet.rowsOf true :=
    Sheet.mem_rowsOf.2 ⟨column, List.mem_of_find?_eq_some hkeyed.found, hcolumn.1, hq⟩
  have hp := hbolds howns.1.1
  refine ⟨key, column, p, hkeyed, howns, hp, fun q hq => ⟨?_, fun hkey => ?_⟩, ⟨r, hr, hrcast⟩,
    h.exists_stored (mem_rows.2 ⟨hsheet, hp⟩), fun r a hr ha => ?_⟩
  · rintro rfl
    exact howns.1.1
  · exact Nat.le_antisymm (howns.2 ⟨hkey, hq.1.2⟩) (hq.2 ⟨hp, howns.1.2⟩)
  · rw [← hlname]
    exact hr.value_eq ha ht hl hltype hname hgroup hkeyed hsource hcell

/-- The last dish of the summer menu stands below the pies, and has their key. -/
theorem menus_owned : ∃ s r a v, menus.Prepares { workers := 3, chunkSize := 2 } 3 s ∧
    r ∈ s.data.placed ∧ r.2.2.row = 5 ∧ r.2.2.values.find? "Parent" = some v ∧
    a ∈ s.data.placed ∧ a.2.2.row = 4 ∧ a.2.2.values.find? "Course" = some v := by
  let summer := menus.sheets[1]
  have hsummer : summer ∈ menus.sheets := List.getElem_mem _
  have hrow : 5 ∈ summer.rowsOf false := by decide +kernel
  obtain ⟨s, hs, hp⟩ := menus.exists_prepares { workers := 3, chunkSize := 2 }
    (p := fun s =>
      ((s.target? summer true).bind Schema.groupKey?).isNone &&
        ((s.target? summer true).bind Schema.primaryKey?).all (·.name == "Course"))
    (by decide +kernel) 3
  rw [Bool.and_eq_true, Option.isNone_iff_eq_none] at hp
  obtain ⟨key, column, p, hkeyed, howns, -, -, ⟨r, hr, hrcast⟩, ⟨a, ha, hacast⟩, hvalue⟩ :=
    hs.owned hsummer (by decide) (by decide +kernel) (by decide +kernel) hp.1 hrow
  have hkey : key.name = "Course" := by
    have hall := hp.2
    rw [hkeyed.primary, Option.all_some] at hall
    exact eq_of_beq hall
  have hrows : column.cells.rows = [1, 4] := by
    have hfound := hkeyed.found
    rw [hkey] at hfound
    cases hfound
    rfl
  have hp4 : p = 4 := by
    have hmem : p ∈ [1, 4] := hrows ▸ howns.1.1
    have hle : 4 ≤ p := howns.2 ⟨hrows ▸ by decide, by decide⟩
    simp only [List.mem_cons, List.not_mem_nil, or_false] at hmem
    omega
  obtain ⟨v, hparent, hcourse⟩ := hvalue r a hrcast hacast
  rw [hkey] at hcourse
  exact ⟨s, r, a, v, hs, hr, hrcast.row, hparent, ha, hacast.row.trans hp4, hcourse⟩

/-- A menu whose second course has a note, but no name. -/
def courses : Workbook where
  sheets := [
    { location := ⟨"menu.xlsx", "Menu", none⟩, table := "Dish", based := none, group := none,
      columns := [
        ⟨"Course", "*string", .common, true, .ofList [(1, .text "soups")]⟩,
        ⟨"Note", "string", .common, true, .ofList [(1, .text "hot"), (3, .text "sweet")]⟩,
        ⟨"Name", "string", .common, false, .ofList [(2, .text "leek"), (4, .text "plum")]⟩] }]

/-- A dish below a course without a name belongs to the course above that one. -/
theorem courses_disowned : ∃ s, courses.Prepares {} 1 s ∧ ∃ sheet ∈ courses.sheets,
    IsGreatest {q | q ∈ sheet.rowsOf true ∧ q < 4} 3 ∧
    ∃ r ∈ s.data.placed, s.CastAs ⟨sheet, false, 4⟩ r ∧
    ∃ a ∈ s.data.placed, s.CastAs ⟨sheet, true, 3⟩ a ∧
      (r.2.2.values.find? "Parent").map Value.text = some "soups" ∧
      (a.2.2.values.find? "Course").map Value.text = some "null" := by
  let menu := courses.sheets[0]
  obtain ⟨s, hs, hp⟩ := courses.exists_prepares {} (p := fun s =>
    (s.data.placed.all fun r => r.2.2.row != 4 ||
      decide ((r.2.2.values.find? "Parent").map Value.text = some "soups")) &&
    s.data.placed.all fun a => a.2.2.row != 3 ||
      decide ((a.2.2.values.find? "Course").map Value.text = some "null")) (by decide +kernel) 1
  simp only [Bool.and_eq_true, List.all_eq_true, Bool.or_eq_true, bne_iff_ne, ne_eq,
    decide_eq_true_eq] at hp
  obtain ⟨r, hr, hrcast⟩ := hs.exists_stored (x := ⟨menu, false, 4⟩)
    (mem_rows.2 ⟨List.getElem_mem _, by decide⟩)
  obtain ⟨a, ha, hacast⟩ := hs.exists_stored (x := ⟨menu, true, 3⟩)
    (mem_rows.2 ⟨List.getElem_mem _, by decide⟩)
  refine ⟨s, hs, menu, List.getElem_mem _, ⟨⟨by decide, by decide⟩, ?_⟩, r, hr, hrcast, a, ha,
    hacast, (hp.1 r hr).resolve_left (absurd hrcast.row), (hp.2 a ha).resolve_left
      (absurd hacast.row)⟩
  rintro q ⟨-, hq⟩
  omega

end Workbook

end TypedSheets
