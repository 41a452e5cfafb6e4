import TypedSheets.Proofs.Compilation.Columns
import TypedSheets.Proofs.Compilation.Faultless

/-!
# Failures of casts

A preparation that cannot cast something reports everything that it cannot cast: each column of each
row and each constant is a site of its own, and a rejected preparation has one diagnostic for each
site that fails, in the order of the sites. Neither the chunks that rows are cast in nor the workers
that cast them show in it. A row without a bold row above it fails at its generated column, which it
has unless another table has taken the place of its own.

## Main definitions

* `Workbook.PreparesTo` — what a preparation can come to, failures included.
* `CastSite`, `Session.sites` — the columns of all rows and the constants, in order.
* `Session.failure?` — what is wrong at a site.
* `Session.Orphan` — a normal row without a key above it.

## Main results

* `Session.diagnostics_castJob` — a job complains about its sites that fail.
* `Workbook.PreparesTo.rejected` — every failure is reported once, in order.
* `Workbook.stages_unreported` — an orphan in a table that another has taken the place of.
-/

namespace TypedSheets

open Recall

/-! ### Preparations -/

namespace Workbook

variable {w : Workbook} {settings : Settings} {workers : Nat}

/-- The result of a preparation with some workers, with nothing remembered at its start. -/
inductive PreparesTo (w : Workbook) (settings : Settings) (workers : Nat) :
    Except RunFailure Session → Prop
  /-- Some table cannot be resolved. -/
  | unresolved {f : RunFailure} (h : w.Resolves settings workers (.error f)) :
    PreparesTo w settings workers (.error f)
  /-- Some table inherits from nothing or from itself. -/
  | unsettled {schemas : List Schema} {f : RunFailure}
    (h : w.Resolves settings workers (.ok schemas))
    (hs : w.entered settings schemas = .error f) : PreparesTo w settings workers (.error f)
  /-- All rows and constants are cast, with a result. -/
  | casted {schemas : List Schema} {s : Session} {r : Except RunFailure TableData} {m : Memory}
    (h : w.Resolves settings workers (.ok schemas)) (hs : w.entered settings schemas = .ok s)
    (hcast : s.Casts w workers {} r m) :
    PreparesTo w settings workers (r.map fun data => { s with data })

/-- Every preparation comes to something. -/
theorem exists_preparesTo (w : Workbook) (settings : Settings) (workers : Nat) :
    ∃ r, w.PreparesTo settings workers r := by
  obtain ⟨r, h⟩ := w.exists_resolves settings workers
  cases r with
  | error f => exact ⟨_, .unresolved h⟩
  | ok schemas =>
    cases hs : w.entered settings schemas with
    | error f => exact ⟨_, .unsettled h hs⟩
    | ok s =>
      obtain ⟨r, m, hcast⟩ := s.exists_casts w workers {}
      exact ⟨_, .casted h hs hcast⟩

/-- A session is prepared just if the preparation comes to it. -/
theorem preparesTo_ok_iff {s : Session} :
    w.PreparesTo settings workers (.ok s) ↔ w.Prepares settings workers s := by
  constructor
  · intro h
    generalize hr : (.ok s : Except RunFailure Session) = r at h
    cases h with
    | unresolved => cases hr
    | unsettled => cases hr
    | @casted schemas s₀ r m hresolves hentered hcast =>
      cases r with
      | error f => cases hr
      | ok data =>
        cases hr
        exact .intro hresolves hentered hcast
  · rintro ⟨hresolves, hentered, hcast⟩
    exact .casted hresolves hentered hcast

/-- Once the tables are resolved, a preparation comes to what casting comes to without a memory. -/
theorem PreparesTo.of_resolved {r : Except RunFailure Session}
    (h : w.PreparesTo settings workers r) {s : Session} (hs : w.resolved settings = .ok s) :
    r = (s.castAll w).run.fresh.map fun data => { s with data } := by
  rw [resolved_eq] at hs
  obtain ⟨schemas, hschemas, hentered⟩ := Except.exists_of_bind_ok hs
  cases h with
  | unresolved h => cases h.ok_iff.2 hschemas
  | unsettled h hfails =>
    cases h.ok_iff.2 hschemas
    cases hentered.symm.trans hfails
  | casted h hcasted hcast =>
    cases h.ok_iff.2 hschemas
    cases hentered.symm.trans hcasted
    obtain ⟨rfl, -⟩ := hcast.fresh s.plain_castJob (Memory.meets_empty _)
    rfl

end Workbook

/-! ### Sites -/

/-- What is cast on its own: a column of a row, for a table, or a constant. -/
inductive CastSite where
  /-- A column of a row. -/
  | cell (x : SheetRow) (schema : Schema) (column : SchemaColumn)
  /-- A constant. -/
  | const (c : Constant)

namespace Session

variable {s : Session} {w : Workbook} {settings : Settings}

/-- The columns of a row, in the order of its table. -/
def rowSites (s : Session) (x : SheetRow) : List CastSite :=
  (s.target? x.sheet x.bold).toList.flatMap fun schema =>
    schema.columns.values.map (.cell x schema)

/-- All that is cast for a workbook: the columns of its rows in the order in which these are cast,
and then the constants in the order of the input. -/
def sites (s : Session) (w : Workbook) : List CastSite :=
  w.rowsInOrder.flatMap s.rowSites ++ w.consts.map .const

/-- What is wrong at a site: that there is no bold row above its row, or that its cell or constant
cannot be cast. -/
def failure? (s : Session) : CastSite → Option Diagnostic
  | .cell x schema column =>
    match s.sourceCell? x.sheet x.bold x.row column.name with
    | none => some (missingParent x.sheet x.row)
    | some cell => match (s.defs.cast column.type cell).run.fresh with
      | .error (.failure f) =>
        some (castComplaint f (x.sheet.location.atRow x.row) schema.name column.name)
      | _ => none
  | .const c => match (s.defs.cast c.type c.value).run.fresh with
    | .error (.failure f) => some (castComplaint f c.location c.table c.name)
    | _ => none

/-- The sites of a job. -/
def jobSites (s : Session) : CastJob → List CastSite
  | .rows sheet bold rows => rows.flatMap fun row => s.rowSites ⟨sheet, bold, row⟩
  | .const c => [.const c]

theorem flatMap_sheetJobs_sites (s : Session) (size : Nat) (sheet : Sheet) :
    (sheetJobs size sheet).flatMap s.jobSites = sheet.rows.flatMap s.rowSites := by
  unfold sheetJobs Sheet.rows
  rw [List.flatMap_assoc, List.flatMap_assoc]
  refine List.flatMap_congr fun bold _ => ?_
  rw [List.flatMap_map, List.flatMap_map]
  conv_rhs => rw [← flatten_chunksOf size (sheet.rowsOf bold), List.flatten_eq_flatMap,
    List.flatMap_assoc]
  rfl

/-- The sites of all jobs are those of the workbook, in order, with chunks of any size. -/
theorem flatMap_castJobs_sites (s : Session) (w : Workbook) (size : Nat) :
    (castJobs w size).flatMap s.jobSites = s.sites w := by
  have hconsts : (w.consts.map CastJob.const).flatMap s.jobSites = w.consts.map .const := by
    rw [List.flatMap_map]
    exact List.map_eq_flatMap.symm
  unfold castJobs sites Workbook.rowsInOrder
  rw [List.flatMap_append, hconsts, List.flatMap_assoc, List.flatMap_assoc]
  simp only [List.flatMap_assoc, flatMap_sheetJobs_sites]

/-! ### Complaints -/

/-- What a column of a row comes to shows whether its site fails. -/
theorem failure?_cell {x : SheetRow} {schema : Schema} {c : SchemaColumn}
    {r : Except Diagnostic (String × Value)}
    (h : (s.castColumn schema x.sheet x.bold x.row c).run.fresh = .ok r) :
    s.failure? (.cell x schema c) = (Attempt.failures [r]).head? := by
  rw [fresh_castColumn] at h
  rw [failure?]
  cases hsource : s.sourceCell? x.sheet x.bold x.row c.name with
  | none =>
    rw [hsource] at h
    cases h
    rfl
  | some cell =>
    rw [hsource] at h
    dsimp only at h ⊢
    cases hcast : (s.defs.cast c.type cell).run.fresh with
    | ok v =>
      rw [hcast] at h
      cases h
      rfl
    | error e =>
      rw [hcast] at h
      cases e <;> cases h
      rfl

/-- A row complains about its sites that fail. -/
theorem fst_of_castRow {x : SheetRow} {schema : Schema} {p : List Diagnostic × CastRow}
    (htarget : s.target? x.sheet x.bold = some schema)
    (h : (s.castRow schema x.sheet x.bold x.row).run.fresh = .ok p) :
    p.1 = (s.rowSites x).filterMap s.failure? := by
  rw [fresh_castRow] at h
  obtain ⟨results, hresults, rfl⟩ := Except.exists_of_map_ok h
  unfold rowSites
  rw [htarget, Option.toList_some, List.flatMap_singleton, List.filterMap_map]
  have hall := Except.mapM_eq_ok_iff.1 hresults
  generalize schema.columns.values = columns at hall
  clear h hresults
  induction hall with
  | nil => rfl
  | @cons c r columns results hr _ ih =>
    dsimp only [Attempt.failures] at ih ⊢
    rw [List.filterMap_cons, List.filterMap_cons, Function.comp_apply, failure?_cell hr, ih]
    cases r <;> rfl

theorem ne_nil_of_job {sheet : Sheet} {bold : Bool} {rows : List Nat} {size : Nat}
    (h : .rows sheet bold rows ∈ castJobs w size) : rows ≠ [] := by
  rcases List.mem_append.1 h with h | h
  · obtain ⟨sheets, -, h⟩ := List.mem_flatMap.1 h
    obtain ⟨sheet', -, h⟩ := List.mem_flatMap.1 h
    obtain ⟨bold', -, h⟩ := List.mem_flatMap.1 h
    obtain ⟨rows', hrows', h⟩ := List.mem_map.1 h
    cases h
    exact ne_nil_of_mem_chunksOf hrows'
  · obtain ⟨c, -, h⟩ := List.mem_map.1 h
    cases h

/-- **A job complains about those of its sites that fail**, each of them once and in their order,
unless it is a fault. -/
theorem diagnostics_castJob (hs : w.resolved settings = .ok s) {size : Nat} {job : CastJob}
    (hjob : job ∈ castJobs w size) (hcalm : (s.castJob job).fresh.faulted = false) :
    (s.castJob job).fresh.diagnostics = (s.jobSites job).filterMap s.failure? := by
  cases job with
  | rows sheet bold rows =>
    obtain ⟨row, hrow⟩ := List.exists_mem_of_ne_nil _ (ne_nil_of_job hjob)
    obtain ⟨schema, htarget⟩ := Workbook.exists_target hs (rows_of_job hjob row hrow)
    rw [fresh_castRows htarget] at hcalm ⊢
    cases hall : rows.mapM fun row => (s.castRow schema sheet bold row).run.fresh with
    | error e =>
      have hfault := Outcome.faulted_ofResult (ω := CastOutput)
        (x := chunkOutcome schema sheet <$> rows.mapM fun row =>
          (s.castRow schema sheet bold row).run.fresh)
        (.map (.mapM (unfailing_castRow schema sheet bold) rows)) (h := e) (by rw [hall]; rfl)
      cases hcalm.symm.trans hfault
    | ok results =>
      show (chunkOutcome schema sheet results).diagnostics = _
      rw [chunkOutcome, Pool.diagnostics_verdictOf, jobSites, List.filterMap_flatMap]
      have hrows := Except.mapM_eq_ok_iff.1 hall
      clear hall hcalm hjob hrow
      induction hrows with
      | nil => rfl
      | @cons row p rows results hp _ ih =>
        rw [List.flatMap_cons, List.flatMap_cons, ih]
        rw [fst_of_castRow (x := ⟨sheet, bold, row⟩) htarget hp]
  | const c =>
    rw [fresh_castConst] at hcalm ⊢
    show _ = (s.failure? (.const c)).toList
    unfold failure?
    dsimp only
    cases hcast : (s.defs.cast c.type c.value).run.fresh with
    | ok v => rfl
    | error e => cases e <;> rfl

/-- A normal row of a sheet with a bold tier that has no key above it. -/
structure Orphan (s : Session) (x : SheetRow) : Prop where
  /-- The row is a normal one. -/
  normal : x.bold = false
  /-- The sheet has a bold tier. -/
  hasBold : x.sheet.hasBold = true
  /-- There is no key above the row. -/
  keyless : s.parentCell? x.sheet x.row = none

/-- A column of a row misses a parent just if no cell goes into it. -/
theorem failure?_eq_missingParent_iff {x : SheetRow} {schema : Schema} {c : SchemaColumn} :
    s.failure? (.cell x schema c) = some (missingParent x.sheet x.row) ↔
      s.sourceCell? x.sheet x.bold x.row c.name = none := by
  constructor
  · intro h
    rw [failure?] at h
    split at h
    · assumption
    · split at h
      · -- a complaint about a cast names the column, which a missing parent does not
        cases congrArg Diagnostic.subject (Option.some.inj h)
      · cases h
  · intro h
    rw [failure?, h]

/-- In a row without a key above it, no cell goes into the generated column, and into it only. -/
theorem Orphan.sourceCell?_eq_none_iff {x : SheetRow} (h : s.Orphan x) {name : String} :
    s.sourceCell? x.sheet x.bold x.row name = none ↔ name = s.settings.parentColumn := by
  rw [sourceCell?, h.normal, h.hasBold]
  by_cases hname : name = s.settings.parentColumn
  · simp [hname, h.keyless]
  · simp [hname]

end Session

namespace Workbook

variable {w : Workbook} {settings : Settings} {workers : Nat} {s : Session}

/-- The columns of a row of the workbook are sites of it. -/
theorem mem_sites_of_row {x : SheetRow} (hx : x ∈ w.rows) {site : CastSite}
    (h : site ∈ s.rowSites x) : site ∈ s.sites w :=
  List.mem_append_left _ (List.mem_flatMap.2 ⟨x, w.rowsInOrder_perm.mem_iff.2 hx, h⟩)

/-- An orphan fails for its missing parent at one column, the generated one of its table, if the
table is the one built from its tier. -/
theorem countP_missingParent (hs : w.resolved settings = .ok s) {x : SheetRow} (hx : x ∈ w.rows)
    (horphan : s.Orphan x) (halone : w.Undisplaced settings x.sheet.table false) :
    (s.rowSites x).countP
      (fun site => s.failure? site = some (Session.missingParent x.sheet x.row)) = 1 := by
  obtain rfl := resolved_settings hs
  obtain ⟨hsheet, hrow⟩ := mem_rows.1 hx
  have hnormal : x.sheet.tier false ≠ [] :=
    Sheet.tier_ne_nil_of_rowsOf (List.ne_nil_of_mem (horphan.normal ▸ hrow))
  obtain ⟨t, l, ht, hmem, hname, -⟩ :=
    exists_link_of_undisplaced hs hsheet horphan.hasBold hnormal halone
  have htarget : s.target? x.sheet x.bold = some t := by
    rw [horphan.normal]
    exact ht
  have hcolumn (c : SchemaColumn) :
      s.failure? (.cell x t c) = some (Session.missingParent x.sheet x.row) ↔
        c.name = s.settings.parentColumn :=
    Session.failure?_eq_missingParent_iff.trans horphan.sourceCell?_eq_none_iff
  have hkeys := ((resolved_named hs).columns t (Keyed.mem_values_of_find? ht)).keys_eq
  have hone : (t.columns.values.map (·.name)).count s.settings.parentColumn = 1 := by
    refine List.count_eq_one_of_mem (hkeys ▸ t.columns.nodup_keys) ?_
    exact hname ▸ List.mem_map_of_mem hmem
  rw [List.count, List.countP_map] at hone
  rw [Session.rowSites, htarget, Option.toList_some, List.flatMap_singleton, List.countP_map,
    ← hone]
  refine List.countP_congr fun c _ => ?_
  simp [hcolumn c]

/-- **A preparation reports every failure once.** Let the tables of a workbook be resolved, and let
no cell or constant be cast to a fault. If the cast of a column of some row or of some constant
fails, or if some row has no key above it and a table that is its own, then the preparation is
rejected, whatever the number of workers and the size of the chunks. Its diagnostics are those of
the sites that fail, one for each and in their order: the rows of the workbook, table by table, the
sheets of a table by their names, the bold tier before the normal one and each in the order of its
rows, every row column by column, and then the constants. Each row without a key above it is
reported for that at one column. -/
theorem PreparesTo.rejected {r : Except RunFailure Session} (h : w.PreparesTo settings workers r)
    (hs : w.resolved settings = .ok s)
    (hcalm : ∀ job ∈ castJobs w settings.rowsPerJob, (s.castJob job).fresh.faulted = false)
    (hfails : (∃ site ∈ s.sites w, (s.failure? site).isSome = true) ∨
      ∃ x ∈ w.rows, s.Orphan x ∧ w.Undisplaced settings x.sheet.table false) :
    r = .error (.rejected ((s.sites w).filterMap s.failure?)) ∧ w.rowsInOrder.Perm w.rows ∧
      ∀ x ∈ w.rows, s.Orphan x → w.Undisplaced settings x.sheet.table false →
        (s.rowSites x).countP
          (fun site => s.failure? site = some (Session.missingParent x.sheet x.row)) = 1 := by
  have horphans (x : SheetRow) (hx : x ∈ w.rows) (horphan : s.Orphan x)
      (halone : w.Undisplaced settings x.sheet.table false) :=
    countP_missingParent hs hx horphan halone
  refine ⟨?_, w.rowsInOrder_perm, horphans⟩
  obtain rfl := resolved_settings hs
  have hdiagnostics : ((castJobs w s.settings.rowsPerJob).map fun job =>
      (s.castJob job).fresh).flatMap Outcome.diagnostics =
        (s.sites w).filterMap s.failure? := by
    rw [← s.flatMap_castJobs_sites w s.settings.rowsPerJob, List.filterMap_flatMap,
      List.flatMap_map]
    exact List.flatMap_congr fun job hjob => s.diagnostics_castJob hs hjob (hcalm job hjob)
  have hsite : ∃ site ∈ s.sites w, (s.failure? site).isSome = true := by
    rcases hfails with hsite | ⟨x, hx, horphan, halone⟩
    · exact hsite
    · have hcount := horphans x hx horphan halone
      obtain ⟨site, hsite, hfails⟩ := List.countP_pos_iff.1 (hcount ▸ Nat.one_pos)
      exact ⟨site, mem_sites_of_row hx hsite, by rw [of_decide_eq_true hfails]; rfl⟩
  have hne : (s.sites w).filterMap s.failure? ≠ [] := by
    obtain ⟨site, hsite, hfails⟩ := hsite
    obtain ⟨d, hd⟩ := Option.isSome_iff_exists.1 hfails
    exact List.ne_nil_of_mem (List.mem_filterMap.2 ⟨site, hsite, hd⟩)
  rw [h.of_resolved hs, Session.fresh_castAll, Pool.gather_of_rejected, hdiagnostics]
  · rfl
  · intro o ho
    obtain ⟨job, hjob, rfl⟩ := List.mem_map.1 ho
    exact hcalm job hjob
  · by_contra hnone
    refine hne (hdiagnostics ▸ List.flatMap_eq_nil_iff.2 fun o ho => ?_)
    by_contra hd
    exact hnone ⟨o, ho, hd⟩

/-- A menu with a dish above its first course, a price and a constant that are no numbers. -/
def draftMenu : Workbook where
  sheets := [
    { location := ⟨"menu.xlsx", "Menu", none⟩, table := "Dish", based := none, group := none,
      columns := [
        ⟨"Course", "*string", .common, true, .ofList [(2, .text "soups")]⟩,
        ⟨"Name", "string", .common, false, .ofList [(1, .text "bread"), (3, .text "leek")]⟩,
        ⟨"Price", "int", .common, false, .ofList [(1, .text "two"), (3, .text "4")]⟩] }]
  consts := [⟨⟨"menu.xlsx", "Limits", none⟩, "Limits", "Seats", "int", .common, .text "many"⟩]

/-- What is wrong with the menu: its first row on two counts, and the constant. -/
def draftMenuFailures : List Diagnostic :=
  [.unresolved "row 1 of table 'Dish' has no bold row above it"
      (some ⟨"menu.xlsx", "Menu", some 1⟩),
    Session.castComplaint (.typeCast "two" "int" "expected an integer")
      ⟨"menu.xlsx", "Menu", some 1⟩ "Dish" "Price",
    Session.castComplaint (.typeCast "many" "int" "expected an integer")
      ⟨"menu.xlsx", "Limits", none⟩ "Limits" "Seats"]

/-- Three workers that cast row by row report all that is wrong with the menu. -/
theorem draftMenu_rejected : draftMenu.PreparesTo { workers := 3, chunkSize := 1 } 3
    (.error (.rejected draftMenuFailures)) := by
  obtain ⟨r, hr⟩ := draftMenu.exists_preparesTo { workers := 3, chunkSize := 1 } 3
  have hok : (draftMenu.resolved { workers := 3, chunkSize := 1 }).toOption.isSome = true := by
    decide +kernel
  cases hs : draftMenu.resolved { workers := 3, chunkSize := 1 } with
  | error f =>
    rw [hs] at hok
    cases hok
  | ok s =>
    have hcalm := holds_of_resolved hs (P := fun s => ∀ job ∈ castJobs draftMenu
      (Settings.rowsPerJob { workers := 3, chunkSize := 1 }),
        (s.castJob job).fresh.faulted = false) (by decide +kernel)
    have hfailures := holds_of_resolved hs (P := fun s =>
      (s.sites draftMenu).filterMap s.failure? = draftMenuFailures) (by decide +kernel)
    have hsite : ∃ site ∈ s.sites draftMenu, (s.failure? site).isSome = true := by
      obtain ⟨d, hd⟩ := List.exists_mem_of_ne_nil draftMenuFailures (by decide)
      rw [← hfailures] at hd
      obtain ⟨site, hsite, hfails⟩ := List.mem_filterMap.1 hd
      exact ⟨site, hsite, by rw [hfails]; rfl⟩
    rw [← hfailures]
    obtain ⟨rfl, -⟩ := hr.rejected hs hcalm (.inl hsite)
    exact hr

/-- Two tables: the one of the attributes of stages takes the place of the table `StageAttribute`.
-/
def stages : Workbook where
  sheets := [
    { location := ⟨"stage.xlsx", "StageAttribute", none⟩, table := "StageAttribute", based := none,
      group := none,
      columns := [⟨"Area", "*int", .common, true, .empty⟩,
        ⟨"Id", "*int", .common, false, .ofList [(1, .text "1")]⟩] },
    { location := ⟨"stage.xlsx", "Stage", none⟩, table := "Stage", based := none, group := none,
      columns := [⟨"Id", "*int", .common, true, .empty⟩,
        ⟨"Name", "string", .common, false, .empty⟩] }]

/-- A row without a key above it is not reported, where its table has lost the generated column. -/
theorem stages_unreported : ∃ s x, stages.Prepares {} 1 s ∧ x ∈ stages.rows ∧ s.Orphan x := by
  obtain ⟨s, hs, hkeyless⟩ := stages.exists_prepares {} (p := fun s =>
    stages.rows.any fun x => !x.bold && x.sheet.hasBold && (s.parentCell? x.sheet x.row).isNone)
    (by decide +kernel) 1
  obtain ⟨x, hx, hkeyless⟩ := List.any_eq_true.1 hkeyless
  simp only [Bool.and_eq_true, Bool.not_eq_true', Option.isNone_iff_eq_none] at hkeyless
  obtain ⟨⟨hnormal, hbold⟩, hnone⟩ := hkeyless
  exact ⟨s, x, hs, hx, hnormal, hbold, hnone⟩

end Workbook

end TypedSheets
