import TypedSheets.Proofs.Compilation.Headers
import TypedSheets.Proofs.Sorting

/-!
# The order of the sheets of a table

Sheets of a table are merged if they declare the same columns and the same base table. What is then
resolved is the first of them. Besides its columns and its base table that takes its output group,
which nothing compares, and a base table of no name passes for none. The schemas are independent of
the order in which the sheets are read where the sheets agree on these two.

## Main results

* `Sheet.headers_eq_of_mergesWith` — sheets that merge declare the same columns.
* `Workbook.resolveTable_reordered` — when the sheets of a table can be reordered.
-/

namespace TypedSheets

theorem SheetColumn.sameHeader_iff {a b : SheetColumn} :
    a.sameHeader b = true ↔ a.header = b.header := by
  simp [sameHeader, header, and_assoc]

namespace Sheet

/-- **Sheets that merge and list their columns in one order** declare the same columns in that
order. -/
theorem headers_eq_of_mergesWith {a b : Sheet} (h : a.mergesWith b = true)
    (hnames : a.columns.map (·.name) = b.columns.map (·.name)) : a.headers = b.headers := by
  simp only [mergesWith, Bool.and_eq_true, beq_iff_eq, List.all_eq_true] at h
  obtain ⟨hlength, hheaders⟩ := h
  generalize hpairs : a.columns.zip b.columns = pairs
  have hfst : pairs.map Prod.fst = a.columns := hpairs ▸ List.map_fst_zip (Nat.le_of_eq hlength)
  have hsnd : pairs.map Prod.snd = b.columns :=
    hpairs ▸ List.map_snd_zip (Nat.le_of_eq hlength.symm)
  have hstep : ∀ p ∈ pairs, p.1.name = p.2.name := by
    rw [← hfst, ← hsnd, List.map_map, List.map_map] at hnames
    exact List.map_inj_left.1 hnames
  -- both sheets are sorted by names that they list in one order, and so in step
  have hperm : (a.sortedColumns.zip b.sortedColumns).Perm pairs := by
    rw [← hpairs] at hstep ⊢
    exact zip_sortBy_perm hlength fun p hp q hq => by rw [hstep p hp, hstep q hq]
  rw [headers, headers, ← hfst, ← hsnd, List.map_map, List.map_map]
  refine List.map_inj_left.2 fun p hp => ?_
  exact SheetColumn.sameHeader_iff.1 (hheaders p (hperm.mem_iff.2 hp))

end Sheet

namespace Workbook

variable {w w' : Workbook} {settings : Settings}

/-- Sheets that merge and list their columns in one order declare the same columns. -/
theorem headers_eq_of_groupFaults {table : String} {first : Sheet} {others : List Sheet}
    (hmerge : w.groupFaults table (first :: others) = [])
    (horder : ∀ s ∈ first :: others, s.columns.map (·.name) = first.columns.map (·.name)) :
    ∀ s ∈ first :: others, s.headers = first.headers := by
  intro s hs
  rcases List.mem_cons.1 hs with rfl | hothers
  · rfl
  · refine Sheet.headers_eq_of_mergesWith ?_ (horder s hs)
    rw [groupFaults, List.append_eq_nil_iff, List.append_eq_nil_iff, mergeConflicts,
      List.map_eq_nil_iff, List.filter_eq_nil_iff] at hmerge
    simpa using hmerge.1.2 s hothers

/-- The sheets of a table have its name. -/
theorem table_of_mem_tables {table : String} {sheets : List Sheet}
    (h : (table, sheets) ∈ w.tables.entries) : ∀ s ∈ sheets, s.table = table := by
  intro s hs
  have hfilter : sheets = w.sheets.filter fun a => a.table = table :=
    Keyed.eq_filter_of_mem_groupBy Sheet.table h
  rw [hfilter, List.mem_filter, decide_eq_true_iff] at hs
  exact hs.2

/-- Two sheets of one table with the same headers, where base tables have the same columns, resolve
to the same schemas or both fail exactly if they fail, have no normal tier, or name the same base
table and output group. -/
theorem resolveSheet_eq_iff {a b : Sheet} (htable : a.table = b.table)
    (hheaders : a.headers = b.headers) (hbase : ∀ s, w.baseColumns s = w'.baseColumns s) :
    (w'.resolveSheet settings b).toOption = (w.resolveSheet settings a).toOption ↔
      (w.resolveSheet settings a).toOption = none ∨ a.tier false = [] ∨
        b.based = a.based ∧ b.group.getD b.table = a.group.getD a.table := by
  cases ha : w.resolveSheet settings a with
  | error _ =>
    refine ⟨fun _ => .inl rfl, fun _ => ?_⟩
    cases hb : w'.resolveSheet settings b with
    | error _ => rfl
    | ok schemas' =>
      obtain ⟨schemas, hok⟩ : ∃ schemas, w.resolveSheet settings a = .ok schemas :=
        exists_resolveSheet_congr htable.symm hheaders.symm hb
      cases ha.symm.trans hok
  | ok schemas =>
    constructor
    · intro heq
      refine .inr (or_iff_not_imp_left.2 fun htier => ?_)
      have hb : w'.resolveSheet settings b = .ok schemas := by
        cases hb : w'.resolveSheet settings b with
        | ok schemas' =>
          rw [hb] at heq
          rw [Option.some.inj heq]
        | error _ =>
          rw [hb] at heq
          cases heq
      -- both lists end with the table of the normal tier
      obtain ⟨before, t, hlast, hbased, hgroup⟩ := exists_last_of_resolveSheet ha htier
      obtain ⟨before', t', hlast', hbased', hgroup'⟩ :=
        exists_last_of_resolveSheet hb (mt (tier_eq_nil_congr hheaders false).2 htier)
      obtain ⟨-, hsame⟩ := List.append_inj' (hlast.symm.trans hlast') rfl
      obtain rfl : t = t' := (List.cons.inj hsame).1
      exact ⟨hbased'.symm.trans hbased, hgroup'.symm.trans hgroup⟩
    · intro hcases
      replace hcases := hcases.resolve_left (Option.some_ne_none schemas)
      rw [resolveSheet_congr htable hheaders (fun htier => ?_) ha]
      obtain ⟨hbased, hgroup⟩ := hcases.resolve_left htier
      refine ⟨hbased.symm, hgroup.symm, ?_⟩
      rw [hbase, baseColumns, baseColumns, hbased]

/-- **The order of the sheets of a table.** Let the sheets of a table have no fault as a group and
list their columns in one order, and let them be reordered. The table resolves to the same schemas,
or fails as before, exactly if it fails, has no normal tier, or starts with a sheet that names the
same base table and output group as the first sheet before. -/
theorem resolveTable_reordered (settings : Settings) {table : String} {first first' : Sheet}
    {others others' : List Sheet} (h : (table, first :: others) ∈ w.tables.entries)
    (h' : (table, first' :: others') ∈ w'.tables.entries)
    (hperm : (first' :: others').Perm (first :: others))
    (helse : ∀ other, other ≠ table → w'.sheetOf? other = w.sheetOf? other)
    (hmerge : w.groupFaults table (first :: others) = [])
    (horder : ∀ s ∈ first :: others, s.columns.map (·.name) = first.columns.map (·.name)) :
    (w'.resolveTable settings (first' :: others')).toOption =
        (w.resolveTable settings (first :: others)).toOption ↔
      (w.resolveTable settings (first :: others)).toOption = none ∨ first.tier false = [] ∨
        first'.based = first.based ∧ first'.group.getD table = first.group.getD table := by
  have hfirst' : first' ∈ first :: others := hperm.mem_iff.1 List.mem_cons_self
  have hname : first.table = table := table_of_mem_tables h first List.mem_cons_self
  have hname' : first'.table = table := table_of_mem_tables h first' hfirst'
  have hheaders : first.headers = first'.headers :=
    (headers_eq_of_groupFaults hmerge horder first' hfirst').symm
  -- base tables have the same columns, also if a table inherits from itself
  have hbase (base : String) : (w.sheetOf? base).map (fun s => s.columns.map (·.name)) =
      (w'.sheetOf? base).map fun s => s.columns.map (·.name) := by
    by_cases hown : base = table
    · have hhead : w.sheetOf? table = some first := sheetOf?_eq_head? h
      have hhead' : w'.sheetOf? table = some first' := sheetOf?_eq_head? h'
      rw [hown, hhead, hhead', Option.map_some, Option.map_some, horder first' hfirst']
    · rw [helse base hown]
  have hiff : (w'.resolveSheet settings first').toOption =
      (w.resolveSheet settings first).toOption ↔ _ :=
    resolveSheet_eq_iff (hname.trans hname'.symm) hheaders (baseColumns_congr hbase)
  rw [hname, hname'] at hiff
  exact hiff

/-- A sheet of items with an output group. -/
def itemSheet (name : String) (group : Option String) : Sheet where
  location := ⟨"items.xlsx", name, none⟩
  table := "Item"
  based := none
  group := group
  columns := [
    ⟨"Id", "*string", .common, false, .ofList [(1, .text name)]⟩,
    ⟨"Price", "int", .client, false, .ofList [(1, .text "7")]⟩]

/-- Sheets with the same output group can be reordered. -/
theorem items_reordered :
    let weapons := itemSheet "Weapons" (some "Gear")
    let armors := itemSheet "Armors" (some "Gear")
    let w : Workbook := { sheets := [weapons, armors] }
    let w' : Workbook := { sheets := [armors, weapons] }
    w.groupFaults "Item" [weapons, armors] = [] ∧
      (w'.resolveTable {} [armors, weapons]).toOption =
        (w.resolveTable {} [weapons, armors]).toOption ∧
      (w.resolveTable {} [weapons, armors]).toOption.isSome = true := by
  intro weapons armors w w'
  have hmerge : w.groupFaults "Item" [weapons, armors] = [] := by decide +kernel
  have helse (other : String) (hother : other ≠ "Item") :
      w'.sheetOf? other = w.sheetOf? other := by
    have hne : ("Item" == other) = false := beq_false_of_ne hother.symm
    simp [sheetOf?, w, w', weapons, armors, itemSheet, hne]
  have hw : ("Item", [weapons, armors]) ∈ w.tables.entries := List.mem_singleton.2 rfl
  have hw' : ("Item", [armors, weapons]) ∈ w'.tables.entries := List.mem_singleton.2 rfl
  have hiff := resolveTable_reordered {} hw hw' (List.Perm.swap weapons armors []) helse hmerge
    (by decide)
  exact ⟨hmerge, hiff.2 (.inr (.inr ⟨rfl, rfl⟩)), by decide +kernel⟩

/-- If one of two sheets has an output group, and the other has none, the table is emitted as the
one that is read first says, and neither order is refused. -/
theorem items_reordered_fails :
    let weapons := itemSheet "Weapons" (some "Gear")
    let armors := itemSheet "Armors" none
    let w : Workbook := { sheets := [weapons, armors] }
    let w' : Workbook := { sheets := [armors, weapons] }
    w.tables.entries = [("Item", [weapons, armors])] ∧
      w'.tables.entries = [("Item", [armors, weapons])] ∧
      w.groupFaults "Item" [weapons, armors] = [] ∧
      w'.groupFaults "Item" [armors, weapons] = [] ∧
      weapons.columns.map (·.name) = armors.columns.map (·.name) ∧
      (w.resolveTable {} [weapons, armors]).toOption.map (·.map (·.group)) = some ["Gear"] ∧
      (w'.resolveTable {} [armors, weapons]).toOption.map (·.map (·.group)) = some ["Item"] ∧
      (w.resolveTable {} [armors, weapons]).toOption.map (·.map (·.group)) = some ["Item"] := by
  decide +kernel

end Workbook

end TypedSheets
