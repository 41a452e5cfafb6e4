import Mathlib.Data.String.Basic
import TypedSheets.Proofs.Compilation.Jobs
import TypedSheets.Proofs.Sorting

/-!
# The rows of cast data

No row is lost when a workbook is cast, and none is made up. Chunks of rows are added to the sheets
of their tables one after the other, and sorting at the end moves rows without changing them; so the
data hold the rows of all sheets, each under the table of its tier and the place of its sheet.

## Main definitions

* `Workbook.Prepares` — what the preparation of a workbook can come to.
* `TableData.placed` — the rows of the data, each with its table and place.
* `Session.CastAs` — a row of a sheet as it stands in the data.

## Main results

* `Workbook.prepares_iff` — a preparation comes to what it comes to without a memory.
* `TableData.placed_ofOutputs_perm` — the data hold the rows of all outputs.
* `TableData.pairwise_finish` — the sheets of a table, and the rows of a sheet, are in order.
* `Session.castAs_of_castAll` — the outputs are the rows of all sheets.
* `Workbook.Prepares.rows` — the data are the rows of all sheets, in order.
* `Workbook.Runs.prepares` — what a compilation that comes to an end has passed.
-/

namespace TypedSheets

open Recall

/-! ### Preparing -/

/-- With some workers, the tables of a workbook are resolved and its data are cast to a session. -/
inductive Workbook.Prepares (w : Workbook) (settings : Settings) (workers : Nat) : Session → Prop
  /-- The session that the tables are resolved to, with the data that are cast under it. -/
  | intro {schemas : List Schema} {s : Session} {data : TableData} {m : Memory}
    (resolves : w.Resolves settings workers (.ok schemas))
    (entered : w.entered settings schemas = .ok s)
    (casts : s.Casts w workers {} (.ok data) m) : Prepares w settings workers { s with data }

namespace Workbook

variable {w : Workbook} {settings : Settings} {workers : Nat} {s : Session}

/-- Without a memory, a preparation is one stage after the other. -/
theorem fresh_prepare : (w.prepare settings).run.fresh = (do
    let s ← w.resolved settings
    let data ← (s.castAll w).run.fresh
    return { s with data }) := by
  rw [prepare, fresh_bind_run]
  refine bind_congr fun s => ?_
  rw [fresh_bind_run]
  rfl

/-- What is resolved and cast without a memory is resolved and cast by any number of workers. -/
theorem exists_stages (hs : w.resolved settings = .ok s) {data : TableData}
    (hdata : (s.castAll w).run.fresh = .ok data) (workers : Nat) :
    ∃ schemas m, w.Resolves settings workers (.ok schemas) ∧ w.entered settings schemas = .ok s ∧
      s.Casts w workers {} (.ok data) m := by
  rw [resolved_eq] at hs
  obtain ⟨schemas, hschemas, hentered⟩ := Except.exists_of_bind_ok hs
  obtain ⟨r, hresolves⟩ := w.exists_resolves settings workers
  cases hresolves.ok_iff.2 hschemas
  obtain ⟨r, m, hcasts⟩ := s.exists_casts w workers {}
  obtain ⟨hfresh, -⟩ := hcasts.fresh s.plain_castJob (Memory.meets_empty _)
  rw [hfresh, hdata] at hcasts
  exact ⟨schemas, m, hresolves, hentered, hcasts⟩

/-- **A preparation comes to what it comes to without a memory**, whatever the number of workers and
the order of their turns. -/
theorem prepares_iff :
    w.Prepares settings workers s ↔ (w.prepare settings).run.fresh = .ok s := by
  rw [fresh_prepare]
  constructor
  · intro h
    cases h with
    | @intro schemas s data m hresolves hentered hcasts =>
      obtain ⟨hdata, -⟩ := hcasts.fresh s.plain_castJob (Memory.meets_empty _)
      rw [resolved_eq, hresolves.ok_iff.1 rfl]
      show w.entered settings schemas >>= _ = _
      rw [hentered]
      show (s.castAll w).run.fresh >>= _ = _
      rw [← hdata]
      rfl
  · intro h
    obtain ⟨s₀, hs₀, h⟩ := Except.exists_of_bind_ok h
    obtain ⟨data, hdata, h⟩ := Except.exists_of_bind_ok h
    cases h
    obtain ⟨schemas, m, hresolves, hentered, hcasts⟩ := exists_stages hs₀ hdata workers
    exact .intro hresolves hentered hcasts

/-- A test of the session that a preparation comes to without a memory is one of what any number of
workers prepare. -/
theorem exists_prepares (w : Workbook) (settings : Settings) {p : Session → Bool}
    (h : (w.prepare settings).run.fresh.toOption.any p = true) (workers : Nat) :
    ∃ s, w.Prepares settings workers s ∧ p s = true := by
  cases hs : (w.prepare settings).run.fresh with
  | error f =>
    rw [hs] at h
    cases h
  | ok s =>
    rw [hs] at h
    exact ⟨s, prepares_iff.2 hs, h⟩

/-- What is prepared is a session with resolved tables, and with the data that are cast under it. -/
theorem Prepares.exists_resolved (h : w.Prepares settings workers s) :
    ∃ s₀ data, w.resolved settings = .ok s₀ ∧ (s₀.castAll w).run.fresh = .ok data ∧
      s = { s₀ with data } := by
  have hprepare := prepares_iff.1 h
  rw [fresh_prepare] at hprepare
  obtain ⟨s₀, hs₀, hprepare⟩ := Except.exists_of_bind_ok hprepare
  obtain ⟨data, hdata, hprepare⟩ := Except.exists_of_bind_ok hprepare
  cases hprepare
  exact ⟨s₀, data, hs₀, hdata, rfl⟩

end Workbook

/-! ### Rows in their places -/

/-- A row with the table and the place it is stored under. -/
abbrev PlacedRow := String × Location × CastRow

/-- The rows of a sheet with its place. -/
def CastSheet.placed (sheet : CastSheet) : List (Location × CastRow) :=
  sheet.rows.map (sheet.location, ·)

/-- The rows of an output, each with its table and place. -/
def CastOutput.placed : CastOutput → List PlacedRow
  | .rows chunk => chunk.placed.map (chunk.table, ·)
  | .const _ => []

namespace TableData

/-- The rows of the data, each with the table and the place it is stored under. -/
def placed (d : TableData) : List PlacedRow :=
  d.tables.entries.flatMap fun e => (e.2.flatMap CastSheet.placed).map (e.1, ·)

variable (d : TableData)

theorem addChunk_perm (chunk : CastSheet) (sheets : List CastSheet) :
    ((addChunk chunk sheets).flatMap CastSheet.placed).Perm
      (sheets.flatMap CastSheet.placed ++ chunk.placed) := by
  induction sheets with
  | nil => simp [addChunk]
  | cons sheet sheets ih =>
    unfold addChunk
    split
    · rename_i hplace
      have hboth : ({ sheet with rows := sheet.rows ++ chunk.rows } : CastSheet).placed =
          sheet.placed ++ chunk.placed := by
        rw [CastSheet.placed, CastSheet.placed, CastSheet.placed, ← hplace, List.map_append]
      rw [List.flatMap_cons, List.flatMap_cons, hboth]
      exact List.perm_append_right_comm ..
    · rw [List.flatMap_cons, List.flatMap_cons, List.append_assoc]
      exact ih.append_left _

/-- A chunk that is added adds its rows. -/
theorem placed_push_perm (chunk : CastSheet) :
    (d.push chunk).placed.Perm (d.placed ++ (CastOutput.rows chunk).placed) :=
  Keyed.flatMap_update_perm d.tables rfl fun sheets => by
    rw [CastOutput.placed, ← List.map_append]
    exact (addChunk_perm chunk sheets).map _

theorem placed_foldl_perm (outputs : List CastOutput) :
    (outputs.foldl addOutput d).placed.Perm (d.placed ++ outputs.flatMap CastOutput.placed) := by
  induction outputs generalizing d with
  | nil => simp
  | cons out outputs ih =>
    rw [List.foldl_cons, List.flatMap_cons, ← List.append_assoc]
    refine (ih _).trans (List.Perm.append_right _ ?_)
    cases out with
    | rows chunk => exact d.placed_push_perm chunk
    | const c =>
      rw [CastOutput.placed, List.append_nil]
      exact .refl _

theorem placed_finish_perm : d.finish.placed.Perm d.placed := by
  unfold placed finish Keyed.mapValues
  rw [List.flatMap_map]
  refine List.Perm.flatMap_left _ fun e _ => List.Perm.map _ ?_
  rw [List.flatMap_map]
  have hrows : ((sortBy sheetBefore e.2).flatMap fun sheet => (sortRows sheet).placed).Perm
      ((sortBy sheetBefore e.2).flatMap CastSheet.placed) :=
    List.Perm.flatMap_left _ fun sheet _ => (sortBy_perm _ sheet.rows).map _
  exact hrows.trans ((sortBy_perm _ _).flatMap_right _)

/-- **The data hold the rows of all outputs**, and no other rows. -/
theorem placed_ofOutputs_perm (outputs : List CastOutput) :
    (ofOutputs outputs).placed.Perm (outputs.flatMap CastOutput.placed) :=
  (placed_finish_perm _).trans (placed_foldl_perm {} outputs)

/-! ### Order -/

/-- One sheet stands in front of another: by its name, or by its file if they have one name. -/
def Precedes (a b : CastSheet) : Prop :=
  a.location.sheet < b.location.sheet ∨
    a.location.sheet = b.location.sheet ∧ a.location.file ≤ b.location.file

theorem Precedes.total (a b : CastSheet) : Precedes a b ∨ Precedes b a := by
  unfold Precedes
  rcases lt_trichotomy a.location.sheet b.location.sheet with h | h | h
  · exact .inl (.inl h)
  · exact (le_total a.location.file b.location.file).imp
      (fun hle => .inr ⟨h, hle⟩) fun hle => .inr ⟨h.symm, hle⟩
  · exact .inr (.inl h)

theorem Precedes.trans {a b c : CastSheet} (h : Precedes a b) (h' : Precedes b c) :
    Precedes a c := by
  rcases h with h | ⟨h, hle⟩
  · rcases h' with h' | ⟨h', -⟩
    · exact .inl (h.trans h')
    · exact .inl (h' ▸ h)
  · rcases h' with h' | ⟨h', hle'⟩
    · exact .inl (h ▸ h')
    · exact .inr ⟨h.trans h', hle.trans hle'⟩

end TableData

/-! ### Rows that are cast -/

namespace Session

/-- An entry of a row of a sheet that is cast for a column: its value is that of the cell which goes
into the column. -/
def EntryOf (s : Session) (x : SheetRow) (c : SchemaColumn) (e : String × Value) : Prop :=
  e.1 = c.name ∧ ∃ cell, s.sourceCell? x.sheet x.bold x.row c.name = some cell ∧
    (s.defs.cast c.type cell).run.fresh = .ok e.2

/-- A row of a sheet as it stands in the data: under the table of its tier and the place of its
sheet, with a value for each column of the table, in their order. -/
structure CastAs (s : Session) (x : SheetRow) (p : PlacedRow) : Prop where
  /-- The table. -/
  table : p.1 = Workbook.tierTable s.settings x.sheet.table x.bold
  /-- The place. -/
  location : p.2.1 = x.sheet.location
  /-- The row. -/
  row : p.2.2.row = x.row
  /-- The values. -/
  values : ∃ schema, s.schemas.find? p.1 = some schema ∧
    List.Forall₂ (s.EntryOf x) schema.columns.values p.2.2.values.entries

variable {s : Session} {w : Workbook} {settings : Settings}

theorem entryOf_of_castColumn {schema : Schema} {x : SheetRow} {c : SchemaColumn}
    {e : String × Value}
    (h : (s.castColumn schema x.sheet x.bold x.row c).run.fresh = .ok (.ok e)) :
    s.EntryOf x c e := by
  rw [fresh_castColumn] at h
  cases hsource : s.sourceCell? x.sheet x.bold x.row c.name with
  | none =>
    rw [hsource] at h
    cases h
  | some cell =>
    rw [hsource] at h
    dsimp only at h
    split at h
    · rename_i v hcast
      cases h
      exact ⟨rfl, cell, hsource, hcast⟩
    all_goals cases h

/-- A row without complaints has a value for each column of its table, in their order. -/
theorem entries_of_castRow {schema : Schema} (hn : schema.Named) {x : SheetRow}
    {p : List Diagnostic × CastRow}
    (h : (s.castRow schema x.sheet x.bold x.row).run.fresh = .ok p) (hp : p.1 = []) :
    p.2.row = x.row ∧
      List.Forall₂ (s.EntryOf x) schema.columns.values p.2.values.entries := by
  rw [fresh_castRow] at h
  obtain ⟨results, hresults, rfl⟩ := Except.exists_of_map_ok h
  have hall := (forall₂_successes (Except.mapM_eq_ok_iff.1 hresults) hp).imp
    fun c e he => entryOf_of_castColumn he
  have hnames : (Attempt.successes results).map Prod.fst = schema.columns.keys := by
    rw [hn.keys_eq]
    exact (hall.imp fun _ _ he => he.1.symm).map_eq.symm
  refine ⟨rfl, ?_⟩
  rw [Keyed.entries_ofList_of_nodup (hnames ▸ schema.columns.nodup_keys)]
  exact hall

/-- Rows without complaints stand in the data as they are cast for their table. -/
theorem castAs_of_castRows (hnamed : s.schemas.Named) {sheet : Sheet} {bold : Bool}
    {rows : List Nat} {schema : Schema} (htarget : s.target? sheet bold = some schema)
    {results : List (List Diagnostic × CastRow)}
    (hall : rows.mapM (fun row => (s.castRow schema sheet bold row).run.fresh) = .ok results)
    (hnil : results.flatMap Prod.fst = []) :
    List.Forall₂ s.CastAs (CastJob.sheetRows (.rows sheet bold rows))
      ((chunkOutcome schema sheet results).outputs.flatMap CastOutput.placed) := by
  have hname : schema.name = Workbook.tierTable s.settings sheet.table bold :=
    hnamed.name_eq htarget
  have hschema : schema ∈ s.schemas.values := Keyed.mem_values_of_find? htarget
  rw [chunkOutcome, hnil]
  show List.Forall₂ _ _ ([CastOutput.rows _].flatMap CastOutput.placed)
  rw [List.flatMap_singleton, CastOutput.placed, CastSheet.placed, CastJob.sheetRows,
    List.forall₂_map_left_iff, List.forall₂_map_right_iff, List.forall₂_map_right_iff,
    List.forall₂_map_right_iff]
  refine ((Except.mapM_eq_ok_iff.1 hall).and_right (List.flatMap_eq_nil_iff.1 hnil)).imp ?_
  rintro row p ⟨hp, hnil⟩
  obtain ⟨hrow, hentries⟩ := entries_of_castRow (x := ⟨sheet, bold, row⟩)
    (hnamed.columns schema hschema) hp hnil
  exact {
    table := hname
    location := rfl
    row := hrow
    values := ⟨schema, hname ▸ htarget, hentries⟩ }

/-- The outputs of a job without complaints are its rows. -/
theorem castAs_of_job (hnamed : s.schemas.Named) {job : CastJob}
    (hclean : (s.castJob job).fresh.Clean) : List.Forall₂ s.CastAs job.sheetRows
      ((s.castJob job).fresh.outputs.flatMap CastOutput.placed) := by
  cases job with
  | rows sheet bold rows =>
    cases htarget : s.target? sheet bold with
    | none =>
      rw [castJob, castRows, htarget] at hclean
      cases hclean
    | some schema =>
      rw [fresh_castRows htarget] at hclean ⊢
      cases hall : rows.mapM fun row => (s.castRow schema sheet bold row).run.fresh with
      | error e =>
        rw [hall] at hclean
        cases e <;> cases hclean
      | ok results =>
        rw [hall] at hclean
        have hnil : (chunkOutcome schema sheet results).diagnostics = [] := hclean.diagnostics_eq
        exact castAs_of_castRows hnamed htarget hall
          ((Pool.diagnostics_verdictOf ..).symm.trans hnil)
  | const c =>
    obtain ⟨k, hk⟩ := castJob_const hclean
    rw [hk]
    exact .nil

/-- **The data hold every row of every sheet once**, and no other rows. -/
theorem castAs_of_castAll (hnamed : s.schemas.Named) {data : TableData}
    (h : (s.castAll w).run.fresh = .ok data) :
    ∃ placed, List.Forall₂ s.CastAs w.rows placed ∧ data.placed.Perm placed := by
  obtain ⟨hclean, rfl⟩ := clean_of_castAll h
  have hjobs : List.Forall₂ s.CastAs
      ((castJobs w s.settings.rowsPerJob).flatMap CastJob.sheetRows)
      (((castJobs w s.settings.rowsPerJob).flatMap fun job =>
        (s.castJob job).fresh.outputs).flatMap CastOutput.placed) := by
    rw [List.flatMap_assoc]
    have heach (job : CastJob) (hjob : job ∈ castJobs w s.settings.rowsPerJob) :=
      castAs_of_job hnamed (hclean job hjob)
    exact List.rel_flatMap (List.forall₂_same.2 heach) fun _ _ hjob => hjob
  obtain ⟨placed, hall, hperm⟩ := List.perm_comp_forall₂
    (w.flatMap_castJobs_perm s.settings.rowsPerJob).symm hjobs
  exact ⟨placed, hall, (TableData.placed_ofOutputs_perm _).trans hperm.symm⟩

end Session

namespace Workbook

variable {w : Workbook} {settings : Settings} {workers : Nat} {s : Session}

/-- The number of the rows of all sheets. -/
theorem length_rows (w : Workbook) : w.rows.length =
    (w.sheets.map fun sheet => (sheet.rowsOf true).length + (sheet.rowsOf false).length).sum := by
  rw [rows, List.length_flatMap]
  simp [Sheet.rows]

/-- Two menus of one table: the sheets have the same name, and the dishes stand below the course
that they belong to. -/
def menus : Workbook where
  sheets := [
    { location := ⟨"winter.xlsx", "Menu", none⟩, table := "Dish", based := none, group := none,
      columns := [
        ⟨"Course", "*string", .common, true, .ofList [(1, .text "stews")]⟩,
        ⟨"Name", "*string", .common, false, .ofList [(2, .text "bean"), (3, .text "beet")]⟩,
        ⟨"Price", "int?", .common, false, .ofList [(3, .text "6")]⟩] },
    { location := ⟨"summer.xlsx", "Menu", none⟩, table := "Dish", based := none, group := none,
      columns := [
        ⟨"Course", "*string", .common, true, .ofList [(1, .text "soups"), (4, .text "pies")]⟩,
        ⟨"Name", "*string", .common, false,
          .ofList [(2, .text "leek"), (3, .text "pea"), (5, .text "apple")]⟩,
        ⟨"Price", "int?", .common, false, .ofList [(2, .text "4"), (5, .text "3")]⟩] }]

end Workbook

/-! ### Compilations that come to an end -/

namespace Check

variable {s : Session} {w : Workbook}

/-- An item whose outcome is clean has no complaints. -/
theorem fresh_of_clean {item : Attempt (List Diagnostic)}
    (h : (Outcome.ofAttempt (examine item)).fresh.Clean) : item.run.fresh = .ok [] := by
  rw [Outcome.fresh_ofAttempt, examine, fresh_bind_run] at h
  cases hitem : item.run.fresh with
  | error e =>
    rw [hitem] at h
    cases e <;> cases h
  | ok complaints =>
    rw [hitem] at h
    cases complaints with
    | nil => rfl
    | cons d ds => cases h

/-- The items of a check without complaints have none. -/
theorem fresh_items {c : Check} (h : (c.report s w).fresh = .ok []) :
    ∀ item ∈ c.items s w, item.run.fresh = .ok [] := by
  rw [fresh_report, Check.run, Pool.fresh_run] at h
  intro item hitem
  cases hgather : Pool.gather c.name ((c.items s w).map fun item =>
      (Outcome.ofAttempt (examine item)).fresh) with
  | ok outputs =>
    exact fresh_of_clean ((Pool.gather_ok hgather).1 _ (List.mem_map_of_mem hitem))
  | error f =>
    rw [hgather] at h
    cases f with
    | aborted faults => cases h
    | rejected complaints =>
      cases h
      exact absurd rfl (Pool.gather_rejected hgather)

/-- Where no check complains, no item of a check does. -/
theorem fresh_items_of_complaints {cs : List Check}
    (h : (s.complaintsOf w cs).run.fresh = .ok []) :
    ∀ c ∈ cs, ∀ item ∈ c.items s w, item.run.fresh = .ok [] := by
  induction cs with
  | nil => exact fun c hc => absurd hc List.not_mem_nil
  | cons c cs ih =>
    rw [Session.complaintsOf, fresh_bind_run, ExceptT.run_mk] at h
    obtain ⟨found, hfound, h⟩ := Except.exists_of_bind_ok h
    rw [fresh_bind_run] at h
    obtain ⟨rest, hrest, h⟩ := Except.exists_of_bind_ok h
    obtain ⟨rfl, rfl⟩ := List.append_eq_nil_iff.1 (Except.ok.inj h)
    exact List.forall_mem_cons.2 ⟨fresh_items hfound, ih hrest⟩

end Check

/-- **What a compilation has passed.** If a compilation with some workers comes to an end, then its
session is prepared, and no item of a check has complaints about it. -/
theorem Workbook.Runs.prepares {w : Workbook} {settings : Settings} {workers : Nat} {c : Compiled}
    (h : w.Runs settings workers (.ok c)) :
    ∃ s, w.Prepares settings workers s ∧ c = s.compiled ∧
      ∀ check ∈ Check.all, ∀ item ∈ check.items s w, item.run.fresh = .ok [] := by
  generalize hr : (.ok c : Except RunFailure Compiled) = r at h
  cases h with
  | unresolved | unsettled | uncast => cases hr
  | @checked schemas s data m found hresolves hentered hcasts hcheck =>
    obtain ⟨-, hfound⟩ := hcheck.fresh_of_casts hcasts
    refine ⟨_, .intro hresolves hentered hcasts, ?_⟩
    match found, hr with
    | .ok (_ :: _), hr => cases hr
    | .ok [], hr =>
      cases hr
      exact ⟨rfl, Check.fresh_items_of_complaints hfound.symm⟩

/-- A compilation that comes to an end without a memory comes to the same with any number of
workers. -/
theorem Workbook.runs_of_fresh {w : Workbook} {settings : Settings} {c : Compiled}
    (h : (w.compile settings).run.fresh = .ok c) (workers : Nat) :
    w.Runs settings workers (.ok c) := by
  rw [fresh_compile] at h
  obtain ⟨s, hs, h⟩ := Except.exists_of_bind_ok h
  obtain ⟨data, hdata, hverdict⟩ := Except.exists_of_bind_ok h
  obtain ⟨schemas, m, hresolves, hentered, hcasts⟩ := exists_stages hs hdata workers
  obtain ⟨found, hcheck⟩ := ({ s with data } : Session).exists_complains w workers Check.all m
  rw [← (hcheck.fresh_of_casts hcasts).2] at hverdict
  exact hverdict ▸ .checked hresolves hentered hcasts hcheck

end TypedSheets
