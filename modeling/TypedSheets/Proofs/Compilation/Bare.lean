import TypedSheets.Proofs.Compilation.Headers
import TypedSheets.Proofs.Sorting

/-!
# Resolution reads no cells

A table is resolved by what its sheets declare. Without their cells, sheets have the same complaints
and the same schemas.

## Main definitions

* `Workbook.bare` — a workbook without the cells of its sheets.

## Main results

* `Workbook.resolved_bare` — it is resolved as the workbook.
-/

namespace TypedSheets

/-- A column without its cells. -/
def SheetColumn.bare (c : SheetColumn) : SheetColumn := { c with cells := .empty }

/-- A sheet without its cells. -/
def Sheet.bare (s : Sheet) : Sheet := { s with columns := s.columns.map SheetColumn.bare }

/-- A workbook without the cells of its sheets. -/
def Workbook.bare (w : Workbook) : Workbook := { w with sheets := w.sheets.map Sheet.bare }

namespace Sheet

theorem sortedColumns_bare (s : Sheet) :
    s.bare.sortedColumns = s.sortedColumns.map SheetColumn.bare :=
  sortBy_map _ SheetColumn.bare s.columns

theorem mergesWith_bare (a b : Sheet) : a.bare.mergesWith b.bare = a.mergesWith b := by
  have hall : ((a.sortedColumns.map SheetColumn.bare).zip
        (b.sortedColumns.map SheetColumn.bare)).all (fun p => p.1.sameHeader p.2) =
      (a.sortedColumns.zip b.sortedColumns).all fun p => p.1.sameHeader p.2 := by
    rw [List.zip_map, List.all_map]
    rfl
  have hlength (s : Sheet) : s.bare.columns.length = s.columns.length := List.length_map _
  rw [mergesWith, mergesWith, sortedColumns_bare, sortedColumns_bare, hall, hlength, hlength]

theorem headers_bare (s : Sheet) : s.bare.headers = s.headers := List.map_map

end Sheet

theorem baseConflicts_bare (table : String) (sheets : List Sheet) :
    baseConflicts table (sheets.map Sheet.bare) = baseConflicts table sheets := by
  have hgroups : (Keyed.groupBy Sheet.baseName (sheets.map Sheet.bare)).entries =
      (Keyed.groupBy Sheet.baseName sheets).entries.map fun e => (e.1, e.2.map Sheet.bare) := by
    rw [Keyed.groupBy_map]
    rfl
  rw [baseConflicts, baseConflicts, hgroups]
  dsimp only
  rw [List.length_map, List.flatMap_map, List.head?_map, Option.map_map]
  simp only [← List.map_take, List.map_map]
  rfl

theorem mergeConflicts_bare (first : Sheet) (others : List Sheet) :
    mergeConflicts first.bare (others.map Sheet.bare) = mergeConflicts first others := by
  rw [mergeConflicts, mergeConflicts, List.filter_map, List.map_map]
  simp only [Function.comp_def, Sheet.mergesWith_bare]
  rfl

theorem inheritedConflicts_bare (sheet : Sheet) (base : String) (c : SheetColumn) :
    inheritedConflicts sheet.bare base c.bare = inheritedConflicts sheet base c := by
  have hfind : sheet.bare.columns.find? (·.name == c.bare.name) =
      (sheet.columns.find? (·.name == c.name)).map SheetColumn.bare := List.find?_map
  unfold inheritedConflicts
  rw [hfind]
  cases sheet.columns.find? (·.name == c.name) <;> rfl

namespace Workbook

variable (w : Workbook) (settings : Settings)

theorem sheetOf?_bare (table : String) :
    w.bare.sheetOf? table = (w.sheetOf? table).map Sheet.bare := List.find?_map

theorem groupFaults_bare (table : String) (sheets : List Sheet) :
    w.bare.groupFaults table (sheets.map Sheet.bare) = w.groupFaults table sheets := by
  cases sheets with
  | nil => rfl
  | cons first others =>
    have hbase : w.bare.inheritanceConflicts first.bare = w.inheritanceConflicts first := by
      have hbased : first.bare.based = first.based := rfl
      unfold inheritanceConflicts
      rw [hbased]
      cases first.based with
      | none => rfl
      | some base =>
        dsimp only
        rw [sheetOf?_bare]
        cases w.sheetOf? base with
        | none => rfl
        | some source =>
          show (Sheet.bare source).sortedColumns.flatMap _ = _
          rw [Sheet.sortedColumns_bare, List.flatMap_map]
          exact List.flatMap_congr fun c _ => inheritedConflicts_bare first base c
    show baseConflicts table ((first :: others).map Sheet.bare) ++
      mergeConflicts first.bare (others.map Sheet.bare) ++ _ = _
    rw [baseConflicts_bare, mergeConflicts_bare, hbase]
    rfl

theorem resolveSheet_bare (sheet : Sheet) :
    w.bare.resolveSheet settings sheet.bare = w.resolveSheet settings sheet := by
  have hfaults : typeFaults sheet.bare = typeFaults sheet := List.filterMap_map
  have hbase : w.bare.baseColumns sheet.bare = w.baseColumns sheet := by
    have hbased : sheet.bare.based = sheet.based := rfl
    unfold baseColumns
    rw [hbased]
    cases sheet.based with
    | none => rfl
    | some base =>
      rw [Option.bind_some, Option.bind_some, sheetOf?_bare]
      cases w.sheetOf? base with
      | none => rfl
      | some source => exact List.map_map
  have htier (bold : Bool) (inherited : List String) :
      tierColumns sheet.bare bold inherited = tierColumns sheet bold inherited :=
    tierColumns_congr sheet.headers_bare bold inherited
  unfold resolveSheet
  rw [hfaults, hbase, htier, htier]
  rfl

theorem resolve_bare : w.bare.resolve settings = w.resolve settings := by
  have hjob (e : String × List Sheet) :
      w.bare.resolveJob settings (e.1, e.2.map Sheet.bare) = w.resolveJob settings e := by
    have hresolve : w.bare.resolveTable settings (e.2.map Sheet.bare) =
        w.resolveTable settings e.2 := by
      cases e.2 with
      | nil => rfl
      | cons first others => exact w.resolveSheet_bare settings first
    rw [resolveJob, resolveJob, groupFaults_bare, hresolve]
  have htables : w.bare.tables.entries =
      w.tables.entries.map fun e => (e.1, e.2.map Sheet.bare) := by
    show (Keyed.groupBy Sheet.table (w.sheets.map Sheet.bare)).entries = _
    rw [Keyed.groupBy_map]
    rfl
  rw [resolve, resolve, Pool.run, Pool.run, htables, Pool.outcomes_map]
  simp only [Function.comp_def, hjob]

/-- **Resolution does not read cells.** -/
theorem resolved_bare : w.bare.resolved settings = w.resolved settings := by
  rw [resolved, resolve_bare]
  rfl

end Workbook

end TypedSheets
