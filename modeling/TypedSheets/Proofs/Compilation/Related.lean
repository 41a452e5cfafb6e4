import TypedSheets.Proofs.Compilation.Bare
import TypedSheets.Proofs.Compilation.Rows

/-!
# Sheets that are cast alike

Two workbooks may differ in their cells only. They are then resolved to the same tables. If each row
of the one is cast to values that are related to those of the other, the data of both have the same
shape: the same rows in the same places, with related values.

## Main definitions

* `TableData.Related` — data in the same places with related values.
* `Session.SheetsAlike` — two sheets in one place that are cast to related values.

## Main results

* `TableData.related_ofOutputs` — data put together from related outputs are related.
* `Workbook.Prepares.exists_related` — what is prepared for one workbook is prepared for the other.
-/

namespace TypedSheets

open Recall

/-! ### Related data -/

section Related

variable (R : Value → Value → Prop)

/-- Two rows in one place with related values. -/
structure CastRow.Related (r r' : CastRow) : Prop where
  /-- The row of the sheet. -/
  row : r.row = r'.row
  /-- The values. -/
  values : r.values.Related R r'.values

/-- The rows of two sheets in one place, with related values. -/
structure CastSheet.Related (c c' : CastSheet) : Prop where
  /-- The table. -/
  table : c.table = c'.table
  /-- The sheet. -/
  location : c.location = c'.location
  /-- The rows. -/
  rows : List.Forall₂ (CastRow.Related R) c.rows c'.rows

/-- Rows with related values, or the same constant. -/
inductive CastOutput.Related : CastOutput → CastOutput → Prop
  | rows {c c' : CastSheet} (h : c.Related R c') : CastOutput.Related (.rows c) (.rows c')
  | const (c : CastConst) : CastOutput.Related (.const c) (.const c)

/-- Data in the same places, with related values and the same constants. -/
structure TableData.Related (d d' : TableData) : Prop where
  /-- The rows of all tables. -/
  tables : d.tables.Related (List.Forall₂ (CastSheet.Related R)) d'.tables
  /-- The constants. -/
  consts : d.consts = d'.consts

end Related

namespace TableData

variable {R : Value → Value → Prop}

theorem forall₂_addChunk {c c' : CastSheet} (hc : c.Related R c') {l l' : List CastSheet}
    (h : List.Forall₂ (CastSheet.Related R) l l') :
    List.Forall₂ (CastSheet.Related R) (addChunk c l) (addChunk c' l') := by
  induction h with
  | nil => exact .cons hc .nil
  | @cons s s' l l' hs h ih =>
    unfold addChunk
    rw [hs.location, hc.location]
    split
    · exact .cons ⟨hs.table, rfl, List.rel_append hs.rows hc.rows⟩ h
    · exact .cons hs ih

theorem Related.addOutput {d d' : TableData} (h : d.Related R d') {o o' : CastOutput}
    (ho : o.Related R o') : (d.addOutput o).Related R (d'.addOutput o') := by
  cases ho with
  | @rows c c' hc =>
    refine ⟨?_, h.consts⟩
    show (d.tables.update c.table [] (addChunk c)).Related _
      (d'.tables.update c'.table [] (addChunk c'))
    rw [hc.table]
    exact h.tables.update c'.table .nil fun l l' hl => forall₂_addChunk hc hl
  | const c => exact ⟨h.tables, congrArg (· ++ [c]) h.consts⟩

theorem Related.finish {d d' : TableData} (h : d.Related R d') : d.finish.Related R d'.finish := by
  refine ⟨h.tables.mapValues fun l l' hl => ?_, h.consts⟩
  rw [List.forall₂_map_left_iff, List.forall₂_map_right_iff]
  refine (forall₂_sortBy (fun a b a' b' hab hab' => ?_) hl).imp fun c c' hc => ?_
  · rw [sheetBefore, sheetBefore, hab.location, hab'.location]
  · refine ⟨hc.table, hc.location, forall₂_sortBy (fun a b a' b' hab hab' => ?_) hc.rows⟩
    rw [hab.row, hab'.row]

/-- **Data put together from related outputs are related.** -/
theorem related_ofOutputs {os os' : List CastOutput}
    (h : List.Forall₂ (CastOutput.Related R) os os') :
    (ofOutputs os).Related R (ofOutputs os') := by
  have hfold {d d' : TableData} (hd : d.Related R d') :
      (os.foldl addOutput d).Related R (os'.foldl addOutput d') := by
    induction h generalizing d d' with
    | nil => exact hd
    | cons ho _ ih => exact ih (hd.addOutput ho)
  have hempty : TableData.Related R {} {} := { tables := List.Forall₂.nil, consts := rfl }
  exact (hfold hempty).finish

theorem Related.sheets {d d' : TableData} (h : d.Related R d') (table : String) :
    List.Forall₂ (CastSheet.Related R) (d.sheets table) (d'.sheets table) := by
  have hfind := h.tables.find? table
  unfold TableData.sheets
  generalize d.tables.find? table = o, d'.tables.find? table = o' at hfind
  cases hfind with
  | none => exact .nil
  | some hfound => exact hfound

theorem Related.rowsOf {d d' : TableData} (h : d.Related R d') (table : String) :
    List.Forall₂ (CastRow.Related R) (d.rowsOf table) (d'.rowsOf table) :=
  List.rel_flatMap (h.sheets table) fun _ _ hc => hc.rows

end TableData

/-! ### Casting related sheets -/

namespace Session

variable {s : Session} {R : Value → Value → Prop} {x y : SheetRow}

/-- Wherever the one row is cast to a value, the other is cast to a related one. -/
def CastsAlike (s : Session) (R : Value → Value → Prop) (x y : SheetRow) (c : SchemaColumn) :
    Prop :=
  ∀ e, s.EntryOf x c e → ∃ v, s.EntryOf y c (e.1, v) ∧ R e.2 v

theorem fresh_castColumn_of_entryOf {schema : Schema} {c : SchemaColumn} {e : String × Value}
    (h : s.EntryOf x c e) :
    (s.castColumn schema x.sheet x.bold x.row c).run.fresh = .ok (.ok e) := by
  obtain ⟨hname, cell, hsource, hcast⟩ := h
  rw [fresh_castColumn, hsource]
  dsimp only
  rw [hcast, ← hname]

/-- A row whose columns are cast has their values. -/
theorem fresh_castRow_of_entries {schema : Schema} (hn : schema.Named)
    {entries : List (String × Value)}
    (h : List.Forall₂ (s.EntryOf x) schema.columns.values entries) :
    ∃ r : CastRow, (s.castRow schema x.sheet x.bold x.row).run.fresh = .ok ([], r) ∧
      r.row = x.row ∧ r.values.entries = entries := by
  have hresults : schema.columns.values.mapM
      (fun c => (s.castColumn schema x.sheet x.bold x.row c).run.fresh) =
        .ok (entries.map .ok) := by
    rw [Except.mapM_eq_ok_iff, List.forall₂_map_right_iff]
    exact h.imp fun c e he => fresh_castColumn_of_entryOf he
  have hfailures : Attempt.failures (entries.map (Except.ok (ε := Diagnostic))) = [] := by
    rw [Attempt.failures, List.filterMap_map]
    exact List.filterMap_eq_nil_iff.2 fun _ _ => rfl
  have hsuccesses : Attempt.successes (entries.map (Except.ok (ε := Diagnostic))) = entries := by
    rw [Attempt.successes, List.filterMap_map]
    exact List.filterMap_some
  have hnames : (entries.map Prod.fst).Nodup := by
    have hkeys : entries.map Prod.fst = schema.columns.keys := by
      rw [hn.keys_eq]
      exact (h.imp fun _ _ he => he.1.symm).map_eq.symm
    exact hkeys ▸ schema.columns.nodup_keys
  refine ⟨{ row := x.row, values := Keyed.ofList entries }, ?_, rfl,
    Keyed.entries_ofList_of_nodup hnames⟩
  rw [fresh_castRow, hresults]
  show Except.ok (Attempt.failures _, ({ row := x.row, values := Keyed.ofList _ } : CastRow)) = _
  rw [hfailures, hsuccesses]

/-- Rows whose columns are cast alike are cast alike. -/
theorem exists_castRow_related {schema : Schema} (hn : schema.Named)
    (hrow : x.row = y.row) (halike : ∀ c ∈ schema.columns.values, s.CastsAlike R x y c)
    {p : List Diagnostic × CastRow}
    (h : (s.castRow schema x.sheet x.bold x.row).run.fresh = .ok p) (hp : p.1 = []) :
    ∃ r : CastRow, (s.castRow schema y.sheet y.bold y.row).run.fresh = .ok ([], r) ∧
      p.2.Related R r := by
  obtain ⟨hprow, hentries⟩ := entries_of_castRow hn h hp
  obtain ⟨entries, hentries', hrelated⟩ : ∃ entries,
      List.Forall₂ (s.EntryOf y) schema.columns.values entries ∧
        List.Forall₂ (fun e f => e.1 = f.1 ∧ R e.2 f.2) p.2.values.entries entries := by
    generalize schema.columns.values = cs at halike hentries
    generalize p.2.values.entries = es at hentries
    induction hentries with
    | nil => exact ⟨[], .nil, .nil⟩
    | @cons c e cs es he _ ih =>
      obtain ⟨v, hv, hrel⟩ := halike c List.mem_cons_self e he
      obtain ⟨entries, hall, hrels⟩ := ih fun c hc => halike c (List.mem_cons_of_mem _ hc)
      exact ⟨(e.1, v) :: entries, .cons hv hall, .cons ⟨rfl, hrel⟩ hrels⟩
  obtain ⟨r, hr, hrrow, hvalues⟩ := fresh_castRow_of_entries hn hentries'
  refine ⟨r, hr, hprow.trans (hrow.trans hrrow.symm), ?_⟩
  rw [Keyed.Related, hvalues]
  exact hrelated

/-- Rows that are all cast without complaints are cast for a related sheet. -/
theorem exists_castRows_related {schema : Schema} (hn : schema.Named) {a b : Sheet} {bold : Bool}
    {rows : List Nat} (halike : ∀ row ∈ rows, ∀ c ∈ schema.columns.values,
      s.CastsAlike R ⟨a, bold, row⟩ ⟨b, bold, row⟩ c)
    {results : List (List Diagnostic × CastRow)}
    (h : rows.mapM (fun row => (s.castRow schema a bold row).run.fresh) = .ok results)
    (hnil : results.flatMap Prod.fst = []) :
    ∃ rs : List CastRow,
      rows.mapM (fun row => (s.castRow schema b bold row).run.fresh) = .ok (rs.map ([], ·)) ∧
        List.Forall₂ (CastRow.Related R) (results.map Prod.snd) rs := by
  rw [Except.mapM_eq_ok_iff] at h
  simp only [Except.mapM_eq_ok_iff]
  induction h with
  | nil => exact ⟨[], .nil, .nil⟩
  | @cons row p rows results hp _ ih =>
    rw [List.flatMap_cons, List.append_eq_nil_iff] at hnil
    obtain ⟨r, hr, hrel⟩ := exists_castRow_related (x := ⟨a, bold, row⟩) (y := ⟨b, bold, row⟩) hn
      rfl (halike row List.mem_cons_self) hp hnil.1
    obtain ⟨rs, hall, hrels⟩ := ih (fun row hrow => halike row (List.mem_cons_of_mem _ hrow)) hnil.2
    exact ⟨r :: rs, .cons hr hall, .cons hrel hrels⟩

/-- A job that is done without complaints is done for a related sheet. -/
theorem castJob_related (hnamed : s.schemas.Named) {a b : Sheet} (htable : a.table = b.table)
    (hlocation : a.location = b.location) {bold : Bool} {rows : List Nat}
    (halike : ∀ schema, s.target? a bold = some schema → ∀ row ∈ rows,
      ∀ c ∈ schema.columns.values, s.CastsAlike R ⟨a, bold, row⟩ ⟨b, bold, row⟩ c)
    (hclean : (s.castJob (.rows a bold rows)).fresh.Clean) :
    ∃ outputs, (s.castJob (.rows b bold rows)).fresh = .success outputs ∧
      List.Forall₂ (CastOutput.Related R) (s.castJob (.rows a bold rows)).fresh.outputs
        outputs := by
  cases htarget : s.target? a bold with
  | none =>
    rw [castJob, castRows, htarget] at hclean
    cases hclean
  | some schema =>
    have htarget' : s.target? b bold = some schema := by
      rw [← htarget, target?, target?, htable]
    have hschema := hnamed.columns schema (Keyed.mem_values_of_find? htarget)
    rw [fresh_castRows htarget] at hclean ⊢
    rw [fresh_castRows htarget']
    cases hall : rows.mapM fun row => (s.castRow schema a bold row).run.fresh with
    | error e =>
      rw [hall] at hclean
      cases e <;> cases hclean
    | ok results =>
      rw [hall] at hclean
      have hnil : results.flatMap Prod.fst = [] :=
        (Pool.diagnostics_verdictOf ..).symm.trans hclean.diagnostics_eq
      obtain ⟨rs, hrs, hrelated⟩ :=
        exists_castRows_related hschema (halike schema htarget) hall hnil
      have hrows : (rs.map (([], ·) : CastRow → List Diagnostic × CastRow)).map Prod.snd = rs := by
        rw [List.map_map]
        exact List.map_id _
      have hnil' : (rs.map (([], ·) : CastRow → List Diagnostic × CastRow)).flatMap Prod.fst =
          [] := List.flatMap_eq_nil_iff.2 fun p hp => by
        obtain ⟨r, -, rfl⟩ := List.mem_map.1 hp
        rfl
      rw [hrs]
      refine ⟨[.rows { table := schema.name, location := b.location, rows := rs }], ?_, ?_⟩
      · show chunkOutcome schema b _ = _
        rw [chunkOutcome, hnil', hrows]
        rfl
      · show List.Forall₂ _ (chunkOutcome schema a results).outputs _
        rw [chunkOutcome, hnil]
        exact .cons (.rows ⟨rfl, hlocation, hrelated⟩) .nil

/-- Two sheets in one place, with the same rows, that are cast alike. -/
structure SheetsAlike (s : Session) (R : Value → Value → Prop) (a b : Sheet) : Prop where
  /-- Where they stand, and what they declare. -/
  bare : a.bare = b.bare
  /-- Their rows. -/
  rows : ∀ bold, a.rowsOf bold = b.rowsOf bold
  /-- Their cells. -/
  cells : ∀ bold schema, s.target? a bold = some schema → ∀ row ∈ a.rowsOf bold,
    ∀ c ∈ schema.columns.values, s.CastsAlike R ⟨a, bold, row⟩ ⟨b, bold, row⟩ c

theorem SheetsAlike.table {a b : Sheet} (h : s.SheetsAlike R a b) : a.table = b.table :=
  congrArg (·.table) h.bare

theorem SheetsAlike.location {a b : Sheet} (h : s.SheetsAlike R a b) : a.location = b.location :=
  congrArg (·.location) h.bare

/-- One job is done without complaints, and so is the other, with related outputs. -/
def JobsAlike (s : Session) (R : Value → Value → Prop) (j j' : CastJob) : Prop :=
  (s.castJob j).fresh.Clean → ∃ outputs, (s.castJob j').fresh = .success outputs ∧
    List.Forall₂ (CastOutput.Related R) (s.castJob j).fresh.outputs outputs

theorem jobsAlike_sheetJobs (hnamed : s.schemas.Named) {a b : Sheet} (h : s.SheetsAlike R a b)
    (size : Nat) : List.Forall₂ (s.JobsAlike R) (sheetJobs size a) (sheetJobs size b) := by
  unfold sheetJobs
  refine List.forall₂_flatMap fun bold _ => ?_
  rw [← h.rows bold, List.forall₂_map_left_iff, List.forall₂_map_right_iff, List.forall₂_same]
  intro chunk hchunk hclean
  refine castJob_related hnamed h.table h.location (fun schema ht row hrow => ?_) hclean
  exact h.cells bold schema ht row (flatten_chunksOf size (a.rowsOf bold) ▸
    List.mem_flatten.2 ⟨chunk, hchunk, hrow⟩)

variable {w w' : Workbook}

/-- The jobs of workbooks whose sheets are cast alike. -/
theorem jobsAlike_castJobs (hnamed : s.schemas.Named)
    (hsheets : List.Forall₂ (s.SheetsAlike R) w.sheets w'.sheets) (hconsts : w.consts = w'.consts)
    (size : Nat) :
    List.Forall₂ (s.JobsAlike R) (castJobs w size) (castJobs w' size) := by
  unfold castJobs
  refine List.rel_append ?_ ?_
  · have htables := (Keyed.Related.groupBy hsheets fun a b hab => hab.table).values
    refine List.rel_flatMap htables fun l l' hl => ?_
    refine List.rel_flatMap (forall₂_sortBy (fun a b a' b' hab hab' => ?_) hl) fun a b hab => ?_
    · rw [hab.location, hab'.location]
    · exact jobsAlike_sheetJobs hnamed hab size
  · rw [hconsts, List.forall₂_map_left_iff, List.forall₂_map_right_iff, List.forall₂_same]
    intro c _ hclean
    obtain ⟨k, hk⟩ := castJob_const hclean
    rw [hk]
    exact ⟨_, rfl, .cons (.const k) .nil⟩

theorem forall₂_outputs {jobs jobs' : List CastJob} (h : List.Forall₂ (s.JobsAlike R) jobs jobs')
    (hclean : ∀ job ∈ jobs, (s.castJob job).fresh.Clean) :
    (∀ job ∈ jobs', (s.castJob job).fresh.failed = false) ∧
      List.Forall₂ (CastOutput.Related R) (jobs.flatMap fun job => (s.castJob job).fresh.outputs)
        (jobs'.flatMap fun job => (s.castJob job).fresh.outputs) := by
  induction h with
  | nil => exact ⟨fun _ h => absurd h List.not_mem_nil, .nil⟩
  | @cons job job' jobs jobs' hjob _ ih =>
    obtain ⟨outputs, hdone, hrelated⟩ := hjob (hclean job List.mem_cons_self)
    obtain ⟨hfailed, hrest⟩ := ih fun j hj => hclean j (List.mem_cons_of_mem _ hj)
    refine ⟨fun j hj => ?_, ?_⟩
    · rcases List.mem_cons.1 hj with rfl | hj
      · rw [hdone]
        rfl
      · exact hfailed j hj
    · rw [List.flatMap_cons, List.flatMap_cons, hdone]
      exact List.rel_append hrelated hrest

/-- **Workbooks whose sheets are cast alike are cast to related data.** -/
theorem exists_castAll_related (hnamed : s.schemas.Named)
    (hsheets : List.Forall₂ (s.SheetsAlike R) w.sheets w'.sheets) (hconsts : w.consts = w'.consts)
    {data : TableData} (h : (s.castAll w).run.fresh = .ok data) :
    ∃ data', (s.castAll w').run.fresh = .ok data' ∧ data.Related R data' := by
  have hjobs := jobsAlike_castJobs hnamed hsheets hconsts s.settings.rowsPerJob
  obtain ⟨hclean, rfl⟩ := clean_of_castAll h
  obtain ⟨hfailed, houtputs⟩ := forall₂_outputs hjobs hclean
  have hgather : Pool.gather "cast" ((castJobs w' s.settings.rowsPerJob).map
      fun job => (s.castJob job).fresh) = .ok _ :=
    Pool.gather_of_succeeded (by simpa using hfailed)
  rw [fresh_castAll, hgather]
  refine ⟨_, rfl, TableData.related_ofOutputs ?_⟩
  rw [List.flatMap_map]
  exact houtputs

end Session

/-- **What is prepared for one workbook is prepared for another that is cast alike**: the same
tables, and related data. -/
theorem Workbook.Prepares.exists_related {w w' : Workbook} {settings : Settings} {workers : Nat}
    {s : Session} {R : Value → Value → Prop} (h : w.Prepares settings workers s)
    (hsheets : List.Forall₂ (s.SheetsAlike R) w.sheets w'.sheets) (hconsts : w.consts = w'.consts)
    (henums : w.enums = w'.enums) (hprototypes : w.prototypes = w'.prototypes) :
    ∃ data, w'.Prepares settings workers { s with data } ∧ s.data.Related R data := by
  obtain ⟨s, data, hs, hdata, rfl⟩ := h.exists_resolved
  have hbare : w.bare = w'.bare := by
    have hsame : w.sheets.map Sheet.bare = w'.sheets.map Sheet.bare :=
      (hsheets.imp fun _ _ hab => hab.bare).map_eq
    rw [Workbook.bare, Workbook.bare, hsame, hconsts, henums, hprototypes]
  have hs' : w'.resolved settings = .ok s := by
    rw [← w'.resolved_bare, ← hbare, w.resolved_bare, hs]
  have hsheets : List.Forall₂ (s.SheetsAlike R) w.sheets w'.sheets :=
    hsheets.imp fun a b hab => ⟨hab.bare, hab.rows, hab.cells⟩
  obtain ⟨data', hdata', hrelated⟩ :=
    Session.exists_castAll_related (Workbook.resolved_named hs) hsheets hconsts hdata
  refine ⟨data', Workbook.prepares_iff.2 ?_, hrelated⟩
  rw [Workbook.fresh_prepare, hs']
  show ((s.castAll w').run.fresh >>= _) = _
  rw [hdata']
  rfl

end TypedSheets
