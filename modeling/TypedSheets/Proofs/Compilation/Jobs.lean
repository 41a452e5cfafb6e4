import TypedSheets.Proofs.Compilation.CastData
import TypedSheets.Proofs.Compilation.Tuning

/-!
# Rows of sheets and jobs

The jobs of a workbook cover the rows of both tiers of all sheets, each of them once, whatever the
size of the chunks and the order in which sheets are cast. A row belongs to a tier if some column of
the tier has a cell in it.

## Main definitions

* `SheetRow`, `Workbook.rows` — a row of a tier of a sheet, and those of all sheets.
* `Workbook.rowsInOrder` — the rows of all sheets in the order in which they are cast.
* `CastJob.sheetRows` — the rows that a job casts.

## Main results

* `Sheet.mem_rowsOf`, `Sheet.pairwise_rowsOf` — the rows of a tier.
* `Workbook.flatMap_castJobs`, `Workbook.flatMap_castJobs_perm` — the jobs cast every row once.
* `Workbook.Resolves.not_aborted`, `Workbook.Resolves.ok_iff` — resolving with several workers.
* `Session.fresh_castColumn`, `Session.fresh_castRow` — what a row comes to without a memory.
* `Session.clean_of_castAll` — the outputs behind data that are cast.
-/

namespace TypedSheets

open Recall

/-! ### The rows of a tier -/

theorem mem_insertRow {row r : Nat} {rows : List Nat} :
    r ∈ insertRow row rows ↔ r = row ∨ r ∈ rows := by
  induction rows with
  | nil => exact List.mem_singleton.trans (by simp)
  | cons r' rows ih =>
    unfold insertRow
    split
    · exact List.mem_cons
    · split
      · rename_i heq
        subst heq
        simp
      · rw [List.mem_cons, ih, List.mem_cons]
        exact or_left_comm

namespace Sheet

variable {sheet : Sheet} {bold : Bool}

/-- A row belongs to a tier just if some column of the tier has a cell in it. -/
theorem mem_rowsOf {row : Nat} :
    row ∈ sheet.rowsOf bold ↔ ∃ c ∈ sheet.columns, c.bold = bold ∧ row ∈ c.cells.rows := by
  have hfold (rows start : List Nat) :
      row ∈ rows.foldl (fun rows row => insertRow row rows) start ↔ row ∈ start ∨ row ∈ rows := by
    induction rows generalizing start with
    | nil => simp
    | cons r rows ih =>
      rw [List.foldl_cons, ih, mem_insertRow, List.mem_cons, or_left_comm, or_assoc]
  rw [rowsOf, hfold, List.mem_flatMap]
  simp [tier, and_assoc]

end Sheet

/-! ### The rows of a workbook -/

/-- A row of a tier of a sheet. -/
structure SheetRow where
  /-- The sheet. -/
  sheet : Sheet
  /-- Whether the tier is the bold one. -/
  bold : Bool
  /-- The row. -/
  row : Nat

/-- The rows of both tiers of a sheet, the bold tier first. -/
def Sheet.rows (sheet : Sheet) : List SheetRow :=
  [true, false].flatMap fun bold => (sheet.rowsOf bold).map (⟨sheet, bold, ·⟩)

/-- The rows of both tiers of all sheets. -/
def Workbook.rows (w : Workbook) : List SheetRow :=
  w.sheets.flatMap Sheet.rows

/-- The rows that a job casts. -/
def CastJob.sheetRows : CastJob → List SheetRow
  | .rows sheet bold chunk => chunk.map (⟨sheet, bold, ·⟩)
  | .const _ => []

theorem flatMap_sheetJobs (size : Nat) (sheet : Sheet) :
    (sheetJobs size sheet).flatMap CastJob.sheetRows = sheet.rows := by
  unfold sheetJobs Sheet.rows
  rw [List.flatMap_assoc]
  refine List.flatMap_congr fun bold _ => ?_
  rw [List.flatMap_map]
  conv_rhs => rw [← flatten_chunksOf size (sheet.rowsOf bold), List.map_flatten]
  exact List.flatMap_def

namespace Workbook

variable {w : Workbook} {settings : Settings} {workers : Nat}

theorem mem_rows {x : SheetRow} :
    x ∈ w.rows ↔ x.sheet ∈ w.sheets ∧ x.row ∈ x.sheet.rowsOf x.bold := by
  unfold rows
  rw [List.mem_flatMap]
  constructor
  · rintro ⟨sheet, hsheet, hx⟩
    obtain ⟨bold, -, hx⟩ := List.mem_flatMap.1 hx
    obtain ⟨row, hrow, rfl⟩ := List.mem_map.1 hx
    exact ⟨hsheet, hrow⟩
  · rintro ⟨hsheet, hrow⟩
    refine ⟨x.sheet, hsheet, List.mem_flatMap.2 ⟨x.bold, ?_, List.mem_map.2 ⟨x.row, hrow, rfl⟩⟩⟩
    cases x.bold <;> simp

/-- The rows of all sheets in the order in which they are cast: tables in the order of the input,
and their sheets in the order of their names. -/
def rowsInOrder (w : Workbook) : List SheetRow :=
  w.tables.values.flatMap fun sheets =>
    (sortBy (fun a b => a.location.sheet ≤ b.location.sheet) sheets).flatMap Sheet.rows

/-- Casting takes up the rows of all sheets. -/
theorem rowsInOrder_perm (w : Workbook) : w.rowsInOrder.Perm w.rows := by
  have hsheets : (w.tables.values.flatMap
      (sortBy fun a b => decide (a.location.sheet ≤ b.location.sheet))).Perm w.sheets :=
    Keyed.flatMap_groupBy_perm _ (List.Subset.refl _) fun k => sortBy_perm _ _
  unfold rowsInOrder
  rw [← List.flatMap_assoc]
  exact hsheets.flatMap_right Sheet.rows

/-- The jobs of a workbook cast its rows in order, with chunks of any size. -/
theorem flatMap_castJobs (w : Workbook) (size : Nat) :
    (castJobs w size).flatMap CastJob.sheetRows = w.rowsInOrder := by
  have hconsts : (w.consts.map CastJob.const).flatMap CastJob.sheetRows = [] :=
    List.flatMap_eq_nil_iff.2 fun job hjob => by
      obtain ⟨c, -, rfl⟩ := List.mem_map.1 hjob
      rfl
  unfold castJobs rowsInOrder
  rw [List.flatMap_append, hconsts, List.append_nil, List.flatMap_assoc]
  simp only [List.flatMap_assoc, flatMap_sheetJobs]

/-- **The jobs of a workbook cast every row of every tier once**, with chunks of any size. -/
theorem flatMap_castJobs_perm (w : Workbook) (size : Nat) :
    ((castJobs w size).flatMap CastJob.sheetRows).Perm w.rows := by
  rw [flatMap_castJobs]
  exact w.rowsInOrder_perm

/-- A row is cast by some job, together with other rows of its tier. -/
theorem exists_job_of_mem_rows {x : SheetRow} (hx : x ∈ w.rows) (size : Nat) :
    ∃ rows, .rows x.sheet x.bold rows ∈ castJobs w size ∧ x.row ∈ rows := by
  have hx := (flatMap_castJobs_perm w size).mem_iff.2 hx
  obtain ⟨job, hjob, hx⟩ := List.mem_flatMap.1 hx
  cases job with
  | rows sheet bold rows =>
    obtain ⟨row, hrow, rfl⟩ := List.mem_map.1 hx
    exact ⟨rows, hjob, hrow⟩
  | const c => cases hx

/-- A constant is cast by a job of its own. -/
theorem const_mem_castJobs {c : Constant} (hc : c ∈ w.consts) (size : Nat) :
    .const c ∈ castJobs w size :=
  List.mem_append_right _ (List.mem_map_of_mem hc)

/-- Every row of a resolved workbook has a table to be cast into. -/
theorem exists_target {s : Session} (h : w.resolved settings = .ok s) {x : SheetRow}
    (hx : x ∈ w.rows) : ∃ schema, s.target? x.sheet x.bold = some schema := by
  obtain ⟨hsheet, hrow⟩ := mem_rows.1 hx
  have hkey := (Keyed.mem_keys_groupBy Sheet.table).2 (List.mem_map_of_mem hsheet)
  obtain ⟨e, he, hname⟩ := List.mem_map.1 hkey
  have hmem : x.sheet ∈ e.2 := by
    rw [Keyed.eq_filter_of_mem_groupBy _ he, hname]
    simpa using hsheet
  exact Option.isSome_iff_exists.1
    (isSome_target? h he hmem (Sheet.tier_ne_nil_of_rowsOf (List.ne_nil_of_mem hrow)))

/-! ### Resolving with several workers -/

theorem plain_resolveJob (table : String × List Sheet) :
    Plain (fun _ _ => True) (pure (w.resolveJob settings table) : Recall (Outcome Schema)) := rfl

/-- No run of resolving is aborted. -/
theorem Resolves.not_aborted {r : Except RunFailure (List Schema)}
    (h : w.Resolves settings workers r) (faults : List String) : r ≠ .error (.aborted faults) := by
  obtain ⟨m, hruns⟩ := h
  exact hruns.not_aborted (fun table _ => plain_resolveJob table) (Memory.meets_empty _)
    (fun _ _ => resolveJob_unfaulted) faults

/-- If no table fails, tables are resolved as in their order, whatever the number of workers. -/
theorem Resolves.eq_of_succeeded {r : Except RunFailure (List Schema)}
    (h : w.Resolves settings workers r)
    (hall : ∀ t ∈ w.tables.entries, (w.resolveJob settings t).failed = false) :
    r = w.resolve settings := by
  refine h.eq fun _ => ?_
  rw [List.filter_eq_nil_iff.2 fun t ht => by simp [hall t ht]]
  exact Nat.zero_le 1

/-- With some workers, tables are resolved just if they are in their order, and to the same
schemas. -/
theorem Resolves.ok_iff {r : Except RunFailure (List Schema)} (h : w.Resolves settings workers r)
    {schemas : List Schema} : r = .ok schemas ↔ w.resolve settings = .ok schemas := by
  constructor
  · rintro rfl
    have ⟨m, hruns⟩ := h
    have hgather := hruns.of_ok (fun table _ => plain_resolveJob table) (Memory.meets_empty _)
      fun _ _ => resolveJob_full
    obtain ⟨hclean, -⟩ := Pool.gather_ok hgather
    refine (h.eq_of_succeeded fun t ht => ?_).symm
    obtain ⟨ts, hts⟩ := exists_success_of_clean (hclean _ (List.mem_map_of_mem ht))
    rw [hts]
    rfl
  · intro hschemas
    rw [← hschemas]
    refine h.eq_of_succeeded fun t ht => ?_
    obtain ⟨ts, hts, -⟩ := resolveJob_of_resolve hschemas ht
    rw [hts]
    rfl

end Workbook

/-! ### Rows without a memory -/

namespace Session

variable {s : Session}

theorem fresh_result {α : Type} (a : Attempt α) :
    a.result.run.fresh = match a.run.fresh with
      | .ok v => .ok (.ok v)
      | .error (.failure f) => .ok (.error f)
      | .error h => .error h := by
  refine (fresh_bind a.run _).trans ?_
  rcases a.run.fresh with (_ | _ | _) | _ <;> rfl

/-- The complaint about a cell that cannot be cast. -/
def castComplaint (f : Failure) (location : Location) (table column : String) : Diagnostic :=
  ({ failure := f, location := some location } : Diagnostic).about table column

/-- What a column of a row comes to: its value, or the complaint about its cell, or the complaint
that there is no bold row above. -/
theorem fresh_castColumn (schema : Schema) (x : SheetRow) (c : SchemaColumn) :
    (s.castColumn schema x.sheet x.bold x.row c).run.fresh =
      match s.sourceCell? x.sheet x.bold x.row c.name with
      | none => .ok (.error (missingParent x.sheet x.row))
      | some cell => match (s.defs.cast c.type cell).run.fresh with
        | .ok v => .ok (.ok (c.name, v))
        | .error (.failure f) =>
          .ok (.error (castComplaint f (x.sheet.location.atRow x.row) schema.name c.name))
        | .error h => .error h := by
  unfold castColumn
  cases s.sourceCell? x.sheet x.bold x.row c.name with
  | none => rfl
  | some cell =>
    dsimp only
    rw [fresh_bind_run, fresh_result]
    rcases (s.defs.cast c.type cell).run.fresh with (_ | _ | _) | _ <;> rfl

/-- What a row comes to, from what its columns come to. -/
theorem fresh_castRow (schema : Schema) (sheet : Sheet) (bold : Bool) (row : Nat) :
    (s.castRow schema sheet bold row).run.fresh =
      (fun results => (Attempt.failures results,
        ({ row, values := Keyed.ofList (Attempt.successes results) } : CastRow))) <$>
        schema.columns.values.mapM fun c => (s.castColumn schema sheet bold row c).run.fresh := by
  rw [castRow, fresh_bind_run, fresh_mapM_run, ← bind_pure_comp]
  rfl

/-- What a constant comes to. -/
theorem fresh_castConst (c : Constant) :
    (s.castJob (.const c)).fresh = .ofResult (match (s.defs.cast c.type c.value).run.fresh with
      | .ok value => .ok <| .success [.const
        { table := c.table, name := c.name, type := c.type, scope := c.scope, value,
          location := c.location }]
      | .error (.failure f) => .ok (.rejected [castComplaint f c.location c.table c.name])
      | .error h => .error h) := by
  rw [castJob, Outcome.fresh_ofAttempt, castConst, fresh_bind_run, fresh_result]
  rcases (s.defs.cast c.type c.value).run.fresh with (_ | _ | _) | _ <;> rfl

/-- A constant that is cast without complaints is put out. -/
theorem castJob_const {c : Constant} (hclean : (s.castJob (.const c)).fresh.Clean) :
    ∃ k, (s.castJob (.const c)).fresh = .success [.const k] := by
  rw [fresh_castConst] at hclean ⊢
  generalize (s.defs.cast c.type c.value).run.fresh = x at hclean ⊢
  rcases x with (f | _ | _) | v
  · cases hclean
  · cases hclean
  · cases hclean
  · exact ⟨_, rfl⟩

/-- Data that are cast are put together from the outputs of all jobs, and no job has anything to
complain about. -/
theorem clean_of_castAll {w : Workbook} {data : TableData}
    (h : (s.castAll w).run.fresh = .ok data) :
    (∀ job ∈ castJobs w s.settings.rowsPerJob, (s.castJob job).fresh.Clean) ∧
      data = .ofOutputs ((castJobs w s.settings.rowsPerJob).flatMap fun job =>
        (s.castJob job).fresh.outputs) := by
  rw [fresh_castAll] at h
  obtain ⟨unsorted, hunsorted, rfl⟩ := Except.exists_of_map_ok h
  obtain ⟨outputs, hgather, rfl⟩ := Except.exists_of_map_ok hunsorted
  obtain ⟨hclean, rfl⟩ := Pool.gather_ok hgather
  rw [List.flatMap_map]
  exact ⟨List.forall_mem_map.1 hclean, rfl⟩

end Session

end TypedSheets
