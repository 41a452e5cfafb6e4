import Mathlib.Data.List.Zip
import TypedSheets.Proofs.Compilation.Resolved
import TypedSheets.Proofs.Session.Asking

/-!
# The table of a tier

Every tier of a sheet that has columns is cast into a table of the resolved workbook: the first
sheet of its table has columns in the same tiers, and each of them becomes a table.

## Main definitions

* `SchemaColumn.MadeFrom` — a column of a table has the name, type and scope of one of a sheet.

## Main results

* `Workbook.forall₂_tierColumns` — the columns of a tier, made into columns of a table.
* `Workbook.exists_mem_of_resolveSheet` — a tier with columns becomes a table.
* `Workbook.isSome_target?` — in a resolved workbook every tier with columns has its table.
-/

namespace TypedSheets

/-! ### Sheets of one table -/

/-- Sheets that declare the same columns have columns in the same tiers. -/
theorem Sheet.tier_ne_nil_of_mergesWith {a b : Sheet} (h : a.mergesWith b = true) {bold : Bool}
    (ha : a.tier bold ≠ []) : b.tier bold ≠ [] := by
  simp only [mergesWith, Bool.and_eq_true, beq_iff_eq, List.all_eq_true] at h
  obtain ⟨hlength, hheaders⟩ := h
  obtain ⟨c, hc⟩ := List.exists_mem_of_ne_nil _ ha
  obtain ⟨hc, hbold⟩ := List.mem_filter.1 hc
  have hsorted : a.sortedColumns.length = b.sortedColumns.length :=
    (sortBy_perm _ _).length_eq.trans (hlength.trans (sortBy_perm _ _).length_eq.symm)
  obtain ⟨k, hk, rfl⟩ := List.getElem_of_mem (show c ∈ a.sortedColumns from mem_sortBy.2 hc)
  have hk' : k < b.sortedColumns.length := hsorted ▸ hk
  have hpair : (a.sortedColumns[k], b.sortedColumns[k]) ∈
      a.sortedColumns.zip b.sortedColumns := by
    rw [List.mem_iff_getElem]
    exact ⟨k, by rw [List.length_zip]; omega, List.getElem_zip⟩
  have hsame := hheaders _ hpair
  simp only [SheetColumn.sameHeader, Bool.and_eq_true, beq_iff_eq] at hsame
  refine List.ne_nil_of_mem (List.mem_filter.2 ⟨?_, hsame.2 ▸ hbold⟩)
  exact mem_sortBy.1 (List.getElem_mem hk')

theorem SheetColumn.sameHeader_comm (a b : SheetColumn) : a.sameHeader b = b.sameHeader a := by
  unfold sameHeader
  rw [BEq.comm (a := a.name), BEq.comm (a := a.type), BEq.comm (a := a.scope),
    BEq.comm (a := a.bold)]

theorem Sheet.mergesWith_comm (a b : Sheet) : a.mergesWith b = b.mergesWith a := by
  unfold mergesWith
  rw [BEq.comm (a := a.columns.length), ← List.zip_swap a.sortedColumns b.sortedColumns,
    List.all_map]
  refine congrArg _ (congrArg (List.all _) (funext fun p => ?_))
  exact SheetColumn.sameHeader_comm ..

/-- A tier without columns has no rows. -/
theorem Sheet.tier_ne_nil_of_rowsOf {sheet : Sheet} {bold : Bool} (h : sheet.rowsOf bold ≠ []) :
    sheet.tier bold ≠ [] := by
  intro htier
  rw [rowsOf, htier] at h
  exact h rfl

/-- A column of a table is made from a column of a sheet: it has its name, its type and its scope.
-/
structure SchemaColumn.MadeFrom (c : SchemaColumn) (x : SheetColumn) : Prop where
  /-- The name. -/
  name : c.name = x.name
  /-- The type. -/
  type : c.type = x.type
  /-- The scope. -/
  scope : c.scope = x.scope

namespace Workbook

variable {w : Workbook} {settings : Settings}

/-! ### The tables of a sheet -/

/-- The columns of a tier all have a type, if no type has a fault. -/
theorem forall₂_tierColumns {sheet : Sheet} (h : typeFaults sheet = []) (bold : Bool)
    (inherited : List String) : List.Forall₂ (fun x c => SchemaColumn.MadeFrom c x)
      (sheet.tier bold) (tierColumns sheet bold inherited) := by
  have hall : ∀ x ∈ sheet.tier bold, ∃ c : SchemaColumn, c.MadeFrom x ∧
      SchemaColumn.make x.name x.type x.scope (inherited.contains x.name) = .ok c := by
    intro x hx
    have hcolumn := List.filterMap_eq_nil_iff.1 h x (List.mem_filter.1 hx).1
    unfold SchemaColumn.make
    split
    · exact ⟨_, ⟨rfl, rfl, rfl⟩, rfl⟩
    · rename_i f hf
      rw [hf] at hcolumn
      cases hcolumn
  unfold tierColumns
  generalize sheet.tier bold = columns at hall
  induction columns with
  | nil => exact .nil
  | cons x columns ih =>
    rw [List.forall_mem_cons] at hall
    obtain ⟨⟨c, hc, hmake⟩, hall⟩ := hall
    rw [List.filterMap_cons, hmake]
    exact .cons hc (ih hall)

/-- A tier with columns has columns with types. -/
theorem tierColumns_ne_nil {sheet : Sheet} (h : typeFaults sheet = []) {bold : Bool}
    (htier : sheet.tier bold ≠ []) (inherited : List String) :
    tierColumns sheet bold inherited ≠ [] := by
  intro hnil
  have hall := forall₂_tierColumns h bold inherited
  rw [hnil, List.forall₂_nil_right_iff] at hall
  exact htier hall

/-- The name of the table that a tier is cast into. -/
def tierTable (settings : Settings) (table : String) (bold : Bool) : String :=
  if bold then settings.parentTable table else table

/-- A tier with columns becomes a table. -/
theorem exists_mem_of_resolveSheet {sheet : Sheet} {schemas : List Schema}
    (h : w.resolveSheet settings sheet = .ok schemas) {bold : Bool}
    (htier : sheet.tier bold ≠ []) :
    ∃ t ∈ schemas, t.name = tierTable settings sheet.table bold := by
  obtain ⟨hfaults, parent, table, rfl, hparent, htable⟩ := resolveSheet_ok_iff.1 h
  cases bold with
  | true =>
    cases parent with
    | none => exact absurd hparent (tierColumns_ne_nil hfaults htier [])
    | some p =>
      refine ⟨p.1, ?_, (fields_of_parentSchema hparent).1⟩
      exact List.mem_append_left _ (List.mem_singleton.2 rfl)
  | false =>
    cases table with
    | none => exact absurd htable (tierColumns_ne_nil hfaults htier _)
    | some t =>
      obtain ⟨-, link, -, htable⟩ := htable
      exact ⟨t, List.mem_append_right _ (List.mem_singleton.2 rfl), (fields_of_tableSchema htable).1⟩

/-! ### The tables of a workbook -/

/-- A table that there is nothing to complain about is resolved. -/
theorem exists_success_of_clean {table : String × List Sheet}
    (h : (w.resolveJob settings table).Clean) :
    ∃ ts, w.resolveJob settings table = .success ts := by
  cases hjob : w.resolveJob settings table with
  | success ts => exact ⟨ts, rfl⟩
  | rejected ds =>
    rw [hjob] at h
    exact absurd (hjob.trans (congrArg _ h)) resolveJob_full
  | _ =>
    rw [hjob] at h
    cases h

/-- If all tables are resolved, each of them is. -/
theorem resolveJob_of_resolve {schemas : List Schema} (h : w.resolve settings = .ok schemas)
    {table : String × List Sheet} (ht : table ∈ w.tables.entries) :
    ∃ ts, w.resolveJob settings table = .success ts ∧ ∀ t ∈ ts, t ∈ schemas := by
  have h : Pool.gather "resolve" (Pool.outcomes true
      (fun table => (pure (w.resolveJob settings table) : Id (Outcome Schema)))
      w.tables.entries).run = .ok schemas := h
  obtain ⟨hclean, rfl⟩ := Pool.gather_ok h
  have hall := Pool.outcomes_of_succeeded fun o ho => by
    obtain ⟨e, -, rfl⟩ := Pool.exists_of_mem_outcomes ho
    obtain ⟨ts, hts⟩ := exists_success_of_clean (hclean _ ho)
    exact congrArg Outcome.failed hts
  have hmem : w.resolveJob settings table ∈ w.tables.entries.map (w.resolveJob settings) :=
    List.mem_map_of_mem ht
  rw [← hall] at hmem
  obtain ⟨ts, hts⟩ := exists_success_of_clean (hclean _ hmem)
  refine ⟨ts, hts, fun t ht => List.mem_flatMap.2 ⟨_, hmem, ?_⟩⟩
  rw [hts]
  exact ht

/-- A table is resolved only if its first sheet is, if that shares the columns of its base table,
and if the others merge with it. -/
theorem resolveSheet_of_resolveJob {table : String} {first : Sheet} {others : List Sheet}
    {ts : List Schema} (h : w.resolveJob settings (table, first :: others) = .success ts) :
    w.resolveSheet settings first = .ok ts ∧ w.inheritanceConflicts first = [] ∧
      ∀ sheet ∈ others, sheet.mergesWith first = true := by
  unfold resolveJob at h
  dsimp only at h
  split at h
  · cases h
  · rename_i hfaults
    have hfaults : w.groupFaults table (first :: others) = [] := by simpa using hfaults
    rw [groupFaults, List.append_eq_nil_iff, List.append_eq_nil_iff] at hfaults
    have hmerge : others.filter (fun sheet => !sheet.mergesWith first) = [] :=
      List.map_eq_nil_iff.1 hfaults.1.2
    split at h
    · rename_i hts
      cases h
      refine ⟨hts, hfaults.2, fun sheet hs => ?_⟩
      simpa using List.filter_eq_nil_iff.1 hmerge sheet hs
    · cases h

/-- A table that is declared is found under its name. -/
theorem isSome_find?_foldl_withSchema {s : Session} {schemas : List Schema} {name : String}
    (h : (s.schemas.find? name).isSome = true ∨ ∃ t ∈ schemas, t.name = name) :
    ((schemas.foldl Session.withSchema s).schemas.find? name).isSome = true := by
  induction schemas generalizing s with
  | nil =>
    rcases h with h | ⟨t, ht, -⟩
    · exact h
    · cases ht
  | cons t ts ih =>
    have hdeclare : (s.withSchema t).schemas = s.schemas.insert t.name t := rfl
    refine ih ?_
    rw [hdeclare, Keyed.isSome_find?_iff, Keyed.mem_keys_insert, ← Keyed.isSome_find?_iff]
    rcases h with h | ⟨t', ht', hname⟩
    · exact .inl (.inr h)
    · rcases List.mem_cons.1 ht' with rfl | ht'
      · exact .inl (.inl hname.symm)
      · exact .inr ⟨t', ht', hname⟩

/-- In a resolved workbook every tier with columns has its table. -/
theorem isSome_target? {s : Session} (h : w.resolved settings = .ok s) {table : String × List Sheet}
    (ht : table ∈ w.tables.entries) {sheet : Sheet} (hsheet : sheet ∈ table.2) {bold : Bool}
    (htier : sheet.tier bold ≠ []) : (s.target? sheet bold).isSome = true := by
  obtain ⟨schemas, hschemas, rfl⟩ := resolved_ok h
  obtain ⟨ts, hts, hmem⟩ := resolveJob_of_resolve hschemas ht
  have hname {sheet : Sheet} (hs : sheet ∈ table.2) : sheet.table = table.1 := by
    rw [Keyed.eq_filter_of_mem_groupBy _ ht] at hs
    simpa using (List.mem_filter.1 hs).2
  obtain ⟨name, sheets⟩ := table
  cases sheets with
  | nil => cases hsheet
  | cons first others =>
    obtain ⟨hfirst, -, hmerge⟩ := resolveSheet_of_resolveJob hts
    have htier' : first.tier bold ≠ [] := by
      rcases List.mem_cons.1 hsheet with rfl | hs
      · exact htier
      · exact Sheet.tier_ne_nil_of_mergesWith (hmerge sheet hs) htier
    obtain ⟨t, ht, htname⟩ := exists_mem_of_resolveSheet hfirst htier'
    refine isSome_find?_foldl_withSchema (.inr ⟨t, hmem t ht, ?_⟩)
    rw [htname, hname (List.mem_cons_self ..), foldl_withSchema, hname hsheet]
    rfl

end Workbook

end TypedSheets
