import TypedSheets.Proofs.Compilation.Resolved
import TypedSheets.Proofs.Compilation.Stages

/-!
# Where cast data come from

Every row of the data of a compilation is a row of a sheet, cast under the columns of a table; every
value of it is the result of a cast of one cell. The same holds for constants.

## Main definitions

* `Session.RowCast` — a row cast for a table from a tier of a sheet.
* `Session.JobDone` — what a job has put out.
* `TableData.Holds` — the data hold rows of a chunk under its table.

## Main results

* `Session.gives_castJob` — a clean outcome of a job is what the job has to put out.
* `TableData.holds_ofOutputs` — the data are put together from outputs.
* `Workbook.Passed.row_cast`, `Workbook.Passed.row_of_table`, `Workbook.Passed.const_cast` — rows
  and constants of a compilation that has passed its stages.
* `Session.RowCast.keys_eq`, `Session.RowCast.value_of_column`, `Session.RowCast.column_of_value` —
  the values of a row belong to the columns of its table.
-/

namespace TypedSheets

open Recall

/-! ### Jobs -/

namespace Session

variable (s : Session)

/-- An entry of a row that is cast for a column: its value is the result of a cast of the cell that
goes into the column. -/
def EntryCast (sheet : Sheet) (bold : Bool) (row : Nat) (c : SchemaColumn) (e : String × Value) :
    Prop :=
  e.1 = c.name ∧ ∃ cell, s.sourceCell? sheet bold row c.name = some cell ∧
    Gives s.defs.Early (s.defs.cast c.type cell).run (.ok e.2)

/-- A row that is cast for a table from a row of a tier of a sheet. -/
def RowCast (schema : Schema) (sheet : Sheet) (bold : Bool) (r : CastRow) : Prop :=
  ∃ entries, List.Forall₂ (s.EntryCast sheet bold r.row) schema.columns.values entries ∧
    r.values = Keyed.ofList entries

/-- A constant that is cast. -/
def ConstCast (c : Constant) (k : CastConst) : Prop :=
  k.type = c.type ∧ Gives s.defs.Early (s.defs.cast c.type c.value).run (.ok k.value)

/-- What a job has put out. -/
def JobDone : CastJob → CastOutput → Prop
  | .rows sheet bold rows, .rows chunk => ∃ schema, s.target? sheet bold = some schema ∧
      chunk.table = schema.name ∧ chunk.location = sheet.location ∧
        List.Forall₂ (fun row r => r.row = row ∧ s.RowCast schema sheet bold r) rows chunk.rows
  | .const c, .const k => s.ConstCast c k
  | _, _ => False

variable {s}

theorem gives_castColumn {schema : Schema} {sheet : Sheet} {bold : Bool} {row : Nat}
    {c : SchemaColumn} {e : String × Value}
    (h : Gives s.defs.Early (s.castColumn schema sheet bold row c).run (.ok (.ok e))) :
    s.EntryCast sheet bold row c e := by
  unfold castColumn at h
  split at h
  · cases h.pure_ok
  · rename_i cell hcell
    obtain ⟨r, hr, h⟩ := h.bind_ok (Keeps.result (s.defs.cast_yields _ _).keeps)
    cases r with
    | ok v =>
      cases h.pure_ok
      exact ⟨rfl, cell, hcell, hr.result_ok⟩
    | error f => cases h.pure_ok

/-- Results without failures are successes, one for each. -/
theorem forall₂_successes {γ ε α : Type} {P : γ → Except ε α → Prop} {cs : List γ}
    {rs : List (Except ε α)} (h : List.Forall₂ P cs rs) (hf : Attempt.failures rs = []) :
    List.Forall₂ (fun c a => P c (.ok a)) cs (Attempt.successes rs) := by
  induction h with
  | nil => exact .nil
  | @cons c r cs rs hr _ ih =>
    cases r with
    | ok a => exact .cons hr (ih hf)
    | error e => cases hf

theorem gives_castRow {schema : Schema} {sheet : Sheet} {bold : Bool} {row : Nat}
    {p : List Diagnostic × CastRow}
    (h : Gives s.defs.Early (s.castRow schema sheet bold row).run (.ok p)) (hp : p.1 = []) :
    p.2.row = row ∧ s.RowCast schema sheet bold p.2 := by
  have hk (c : SchemaColumn) := (asks_castColumn (s := s) schema sheet bold row c).early
  obtain ⟨results, hresults, h⟩ := h.bind_ok (Keeps.mapM_run fun c _ => hk c)
  cases h.pure_ok
  have hall := forall₂_successes (hresults.mapM_ok fun c _ => hk c) hp
  exact ⟨rfl, _, hall.imp fun c e he => gives_castColumn he, rfl⟩

theorem gives_castRows {sheet : Sheet} {bold : Bool} {rows : List Nat} {o : Outcome CastOutput}
    (h : Gives s.defs.Early (s.castRows sheet bold rows).run (.ok o)) (ho : o.Clean) :
    ∃ out, o.outputs = [out] ∧ s.JobDone (.rows sheet bold rows) out := by
  unfold castRows at h
  split at h
  · cases h.pure_ok
    cases ho
  · rename_i schema hschema
    have hk (row : Nat) := (asks_castRow (s := s) schema sheet bold row).early
    obtain ⟨results, hresults, h⟩ := h.bind_ok (Keeps.mapM_run fun row _ => hk row)
    dsimp only at h
    split at h
    · rename_i hnil
      cases h.pure_ok
      refine ⟨_, rfl, schema, hschema, rfl, rfl, ?_⟩
      rw [List.isEmpty_iff, List.flatMap_eq_nil_iff] at hnil
      rw [List.forall₂_map_right_iff]
      refine ((hresults.mapM_ok fun row _ => hk row).and_right hnil).imp ?_
      rintro row p ⟨hp, hnil⟩
      exact gives_castRow hp hnil
    · rename_i hne
      cases h.pure_ok
      exact absurd ho (by simpa [Outcome.Clean] using hne)

theorem gives_castConst {c : Constant} {o : Outcome CastOutput}
    (h : Gives s.defs.Early (s.castConst c).run (.ok o)) (ho : o.Clean) :
    ∃ out, o.outputs = [out] ∧ s.JobDone (.const c) out := by
  obtain ⟨r, hr, h⟩ := h.bind_ok (Keeps.result (s.defs.cast_yields _ _).keeps)
  cases r with
  | ok v =>
    cases h.pure_ok
    exact ⟨_, rfl, rfl, hr.result_ok⟩
  | error f =>
    cases h.pure_ok
    cases ho

/-- A clean outcome of a job is the one output that the job has to put out. -/
theorem gives_castJob {job : CastJob} {o : Outcome CastOutput}
    (h : Gives s.defs.Early (s.castJob job) o) (ho : o.Clean) :
    ∃ out, o.outputs = [out] ∧ s.JobDone job out := by
  cases job with
  | rows sheet bold rows =>
    exact gives_castRows (h.ofAttempt (asks_castRows ..).early ho) ho
  | const c => exact gives_castConst (h.ofAttempt (asks_castConst _).early ho) ho

/-- The data of a cast workbook are put together from what its jobs have put out. -/
theorem gives_castAll {w : Workbook} {data : TableData}
    (h : Gives s.defs.Early (s.castAll w).run (.ok data)) : ∃ outputs,
      List.Forall₂ s.JobDone (castJobs w s.settings.rowsPerJob) outputs ∧
        data = TableData.ofOutputs outputs := by
  have hk (job : CastJob) := (asks_castJob (s := s) job).early
  obtain ⟨outputs, hrun, rfl⟩ := Gives.map_ok
    (c := ExceptT.mk (Pool.run "cast" false s.castJob (castJobs w s.settings.rowsPerJob))) h
    (Pool.keeps_run fun job _ => hk job)
  obtain ⟨os, hos, hclean, rfl⟩ := Gives.run_ok hrun fun job _ => hk job
  refine ⟨_, ?_, rfl⟩
  have hdone := (hos.and_right hclean).imp fun job o ho => gives_castJob ho.1 ho.2
  clear hrun hos hclean h
  generalize castJobs w s.settings.rowsPerJob = jobs at hdone
  induction hdone with
  | nil => exact .nil
  | cons ho _ ih =>
    obtain ⟨out, hout, hjob⟩ := ho
    rw [List.flatMap_cons, hout, List.singleton_append]
    exact .cons hjob ih

end Session

/-! ### Data -/

namespace TableData

/-- The data hold rows, under a table and a place, that come from chunks of outputs for them. -/
def Holds (d : TableData) (outputs : List CastOutput) : Prop :=
  ∀ e ∈ d.tables.entries, ∀ sheet ∈ e.2, ∀ r ∈ sheet.rows,
    ∃ chunk, .rows chunk ∈ outputs ∧ chunk.table = e.1 ∧ chunk.location = sheet.location ∧
      r ∈ chunk.rows

variable {d : TableData} {outputs : List CastOutput}

/-- After a chunk is added, a row of a place is one of the chunk or was there before. -/
theorem mem_addChunk {chunk sheet : CastSheet} {sheets : List CastSheet}
    (h : sheet ∈ addChunk chunk sheets) {r : CastRow} (hr : r ∈ sheet.rows) :
    (chunk.location = sheet.location ∧ r ∈ chunk.rows) ∨
      ∃ old ∈ sheets, old.location = sheet.location ∧ r ∈ old.rows := by
  induction sheets with
  | nil =>
    cases List.mem_singleton.1 h
    exact .inl ⟨rfl, hr⟩
  | cons s sheets ih =>
    unfold addChunk at h
    split at h
    · rename_i hplace
      rcases List.mem_cons.1 h with rfl | h
      · rcases List.mem_append.1 hr with hr | hr
        · exact .inr ⟨s, List.mem_cons_self .., rfl, hr⟩
        · exact .inl ⟨hplace.symm, hr⟩
      · exact .inr ⟨sheet, List.mem_cons_of_mem s h, rfl, hr⟩
    · rcases List.mem_cons.1 h with rfl | h
      · exact .inr ⟨sheet, List.mem_cons_self .., rfl, hr⟩
      · rcases ih h with hnew | ⟨old, hold, hr⟩
        · exact .inl hnew
        · exact .inr ⟨old, List.mem_cons_of_mem s hold, hr⟩

theorem Holds.mono {more : List CastOutput} (h : d.Holds outputs) (hm : outputs ⊆ more) :
    d.Holds more := by
  intro e he sheet hsheet r hr
  obtain ⟨chunk, hchunk, hrest⟩ := h e he sheet hsheet r hr
  exact ⟨chunk, hm hchunk, hrest⟩

/-- Adding a chunk adds its rows under its table. -/
theorem Holds.push {chunk : CastSheet} (h : d.Holds outputs) (hc : .rows chunk ∈ outputs) :
    (d.push chunk).Holds outputs := by
  intro e he sheet hsheet r hr
  rcases Keyed.mem_entries_update he with rfl | he
  · rcases mem_addChunk hsheet hr with ⟨hplace, hr⟩ | ⟨old, hold, hplace, hr⟩
    · exact ⟨chunk, hc, rfl, hplace, hr⟩
    · cases hfind : d.tables.find? chunk.table with
      | none =>
        rw [hfind] at hold
        cases hold
      | some sheets =>
        rw [hfind, Option.getD_some] at hold
        rw [← hplace]
        exact h _ (Keyed.mem_of_find? hfind) old hold r hr
  · exact h e he sheet hsheet r hr

theorem Holds.foldl (h : d.Holds outputs) {more : List CastOutput} :
    (more.foldl addOutput d).Holds (outputs ++ more) := by
  induction more generalizing d outputs with
  | nil =>
    rw [List.append_nil]
    exact h
  | cons out more ih =>
    rw [List.append_cons]
    refine ih ?_
    have hmore := h.mono (List.subset_append_left outputs [out])
    cases out with
    | rows chunk =>
      exact hmore.push (List.mem_append_right _ (List.mem_singleton.2 rfl))
    | const c => exact hmore

/-- Sorting changes no row. -/
theorem Holds.finish (h : d.Holds outputs) : d.finish.Holds outputs := by
  intro e he sheet hsheet r hr
  obtain ⟨e₀, he₀, rfl⟩ := List.mem_map.1 he
  obtain ⟨sheet₀, hsheet₀, rfl⟩ := List.mem_map.1 hsheet
  exact h e₀ he₀ sheet₀ (mem_sortBy.1 hsheet₀) r (mem_sortBy.1 hr)

/-- The rows of the data come from the outputs. -/
theorem holds_ofOutputs (outputs : List CastOutput) : (ofOutputs outputs).Holds outputs := by
  have hempty : ({} : TableData).Holds [] := fun _ he => nomatch he
  have hall : (outputs.foldl addOutput {}).Holds ([] ++ outputs) := hempty.foldl
  exact hall.finish

theorem consts_foldl (d : TableData) (outputs : List CastOutput) :
    (outputs.foldl addOutput d).consts = d.consts ++ outputs.filterMap fun
      | .rows _ => none
      | .const k => some k := by
  induction outputs generalizing d with
  | nil => exact (List.append_nil _).symm
  | cons out outputs ih =>
    rw [List.foldl_cons, ih]
    cases out with
    | rows chunk => rfl
    | const k => exact (List.append_cons ..).symm

theorem mem_consts_ofOutputs {k : CastConst} (h : k ∈ (ofOutputs outputs).consts) :
    .const k ∈ outputs := by
  have hk : k ∈ (outputs.foldl addOutput {}).consts := h
  rw [consts_foldl, List.nil_append] at hk
  obtain ⟨out, hout, hk⟩ := List.mem_filterMap.1 hk
  cases out with
  | rows chunk => cases hk
  | const k' =>
    cases hk
    exact hout

end TableData

/-! ### Compilations -/

theorem mem_sheets_of_job {w : Workbook} {size : Nat} {sheet : Sheet} {bold : Bool}
    {rows : List Nat} (h : .rows sheet bold rows ∈ castJobs w size) : sheet ∈ w.sheets := by
  rcases List.mem_append.1 h with h | h
  · obtain ⟨sheets, hsheets, h⟩ := List.mem_flatMap.1 h
    obtain ⟨sheet', hmem, h⟩ := List.mem_flatMap.1 h
    obtain ⟨bold', -, h⟩ := List.mem_flatMap.1 h
    obtain ⟨rows', -, h⟩ := List.mem_map.1 h
    cases h
    obtain ⟨e, he, rfl⟩ := List.mem_map.1 hsheets
    rw [Keyed.eq_filter_of_mem_groupBy _ he] at hmem
    exact List.mem_of_mem_filter (mem_sortBy.1 hmem)
  · obtain ⟨c, -, h⟩ := List.mem_map.1 h
    cases h

theorem mem_consts_of_job {w : Workbook} {size : Nat} {c : Constant}
    (h : .const c ∈ castJobs w size) : c ∈ w.consts := by
  rcases List.mem_append.1 h with h | h
  · obtain ⟨sheets, -, h⟩ := List.mem_flatMap.1 h
    obtain ⟨sheet, -, h⟩ := List.mem_flatMap.1 h
    obtain ⟨bold, -, h⟩ := List.mem_flatMap.1 h
    obtain ⟨rows, -, h⟩ := List.mem_map.1 h
    cases h
  · obtain ⟨c', hc', h⟩ := List.mem_map.1 h
    cases h
    exact hc'

namespace Workbook.Passed

variable {w : Workbook} {settings : Settings} {s : Session}

/-- Tables and columns are entered under their names. -/
theorem named (hp : w.Passed settings s) : s.schemas.Named := by
  obtain ⟨s₀, data, hs, rfl⟩ := hp.resolved
  exact resolved_named (s := s₀) hs

/-- The constants are those of the workbook. -/
theorem consts (hp : w.Passed settings s) : s.defs.consts = Constants.ofList w.consts := by
  obtain ⟨s₀, data, hs, rfl⟩ := hp.resolved
  exact resolved_consts (s := s₀) hs

/-- Every row of the data is cast for its table from a tier of the sheet of the workbook at its
place. -/
theorem row_cast (hp : w.Passed settings s) {e : String × List CastSheet}
    (he : e ∈ s.data.tables.entries) {sheet : CastSheet} (hs : sheet ∈ e.2) {r : CastRow}
    (hr : r ∈ sheet.rows) : ∃ schema source bold, source ∈ w.sheets ∧
      source.location = sheet.location ∧ s.target? source bold = some schema ∧
        s.schemas.find? e.1 = some schema ∧ s.RowCast schema source bold r := by
  obtain ⟨outputs, hdone, hdata⟩ := Session.gives_castAll hp.cast
  rw [hdata] at he
  obtain ⟨chunk, hchunk, htable, hplace, hrow⟩ :=
    TableData.holds_ofOutputs outputs e he sheet hs r hr
  obtain ⟨job, hjob, hdone⟩ := hdone.exists_of_mem_right hchunk
  cases job with
  | rows source bold rows =>
    obtain ⟨schema, hschema, hname, hplace', hrows⟩ := hdone
    obtain ⟨row, -, -, hcast⟩ := hrows.exists_of_mem_right hrow
    refine ⟨schema, source, bold, mem_sheets_of_job hjob, hplace'.symm.trans hplace, hschema, ?_,
      hcast⟩
    rw [← htable, hname, hp.named.name_eq hschema]
    exact hschema
  | const c => cases hdone

/-- Every row of a table is cast for it from a tier of the sheet of the workbook at its place. -/
theorem row_of_table (hp : w.Passed settings s) {t : Schema} (ht : t ∈ s.schemas.values)
    {sheet : CastSheet} (hs : sheet ∈ s.data.sheets t.name) {r : CastRow} (hr : r ∈ sheet.rows) :
    ∃ source bold, source ∈ w.sheets ∧ source.location = sheet.location ∧
      s.target? source bold = some t ∧ s.RowCast t source bold r := by
  unfold TableData.sheets at hs
  cases hfind : s.data.tables.find? t.name with
  | none =>
    rw [hfind] at hs
    cases hs
  | some sheets =>
    rw [hfind, Option.getD_some] at hs
    obtain ⟨t', source, bold, hsource, hplace, htarget, ht', hcast⟩ :=
      hp.row_cast (Keyed.mem_of_find? hfind) hs hr
    cases (hp.named.find?_name ht).symm.trans ht'
    exact ⟨source, bold, hsource, hplace, htarget, hcast⟩

/-- Every constant of the data is cast from a constant of the workbook. -/
theorem const_cast (hp : w.Passed settings s) {k : CastConst} (hk : k ∈ s.data.consts) :
    ∃ c ∈ w.consts, s.ConstCast c k := by
  obtain ⟨outputs, hdone, hdata⟩ := Session.gives_castAll hp.cast
  rw [hdata] at hk
  obtain ⟨job, hjob, hdone⟩ := hdone.exists_of_mem_right (TableData.mem_consts_ofOutputs hk)
  cases job with
  | rows source bold rows => cases hdone
  | const c => exact ⟨c, mem_consts_of_job hjob, hdone⟩

end Workbook.Passed

/-! ### Rows -/

namespace Session.RowCast

variable {s : Session} {schema : Schema} {sheet : Sheet} {bold : Bool} {r : CastRow}

theorem names_of_entries {row : Nat} {cs : List SchemaColumn} {es : List (String × Value)}
    (h : List.Forall₂ (s.EntryCast sheet bold row) cs es) :
    es.map Prod.fst = cs.map (·.name) :=
  (h.imp fun _ _ he => he.1.symm).map_eq.symm

/-- The entries of a row belong to the columns of its table, one to one. -/
theorem entries (h : s.RowCast schema sheet bold r) (hn : schema.Named) :
    List.Forall₂ (s.EntryCast sheet bold r.row) schema.columns.values r.values.entries := by
  obtain ⟨es, hes, hvalues⟩ := h
  have hdistinct : (es.map Prod.fst).Nodup := by
    rw [names_of_entries hes, ← hn.keys_eq]
    exact schema.columns.nodup_keys
  rw [hvalues, Keyed.entries_ofList_of_nodup hdistinct]
  exact hes

/-- A row has the columns of its table, in order. -/
theorem keys_eq (h : s.RowCast schema sheet bold r) (hn : schema.Named) :
    r.values.keys = schema.columns.keys :=
  (names_of_entries (h.entries hn)).trans hn.keys_eq.symm

/-- A row has a value for every column of its table, cast from a cell. -/
theorem value_of_column (h : s.RowCast schema sheet bold r) (hn : schema.Named) {c : SchemaColumn}
    (hc : c ∈ schema.columns.values) : ∃ v, r.values.find? c.name = some v ∧
      s.EntryCast sheet bold r.row c (c.name, v) := by
  obtain ⟨e, he, hcast⟩ := (h.entries hn).exists_of_mem_left hc
  have hname := hcast.1
  refine ⟨e.2, ?_, ?_⟩
  · rw [Keyed.find?_eq_some_iff, ← hname]
    exact he
  · rw [← hname]
    exact hcast

/-- Every value of a row belongs to a column of its table. -/
theorem column_of_value (h : s.RowCast schema sheet bold r) (hn : schema.Named)
    {e : String × Value} (he : e ∈ r.values.entries) : ∃ c ∈ schema.columns.values,
      s.EntryCast sheet bold r.row c e :=
  (h.entries hn).exists_of_mem_right he

end Session.RowCast

end TypedSheets
