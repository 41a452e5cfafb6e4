import TypedSheets.Proofs.Casting.Halting
import TypedSheets.Proofs.Compilation.Jobs

/-!
# Compilations without faults

Nothing that is written in a workbook makes a compilation abort, as long as its casts come to an end
and meet no text that is read as a span beyond the bounds of spans. Then every cell that cannot be
cast is complained about, with its row and its column.

## Main definitions

* `Session.WrittenAt` — a cell of a sheet or constant, and where complaints about it belong.
* `Session.Written` — a cell, a constant or a default text.
* `Session.cells` — all cells, as a list.
* `Session.Steady` — the casts of all that is written fail at worst.

## Main results

* `Definitions.errorsIn_cast` — a cast that meets no span beyond the bounds fails at worst.
* `Session.calm_castJobs`, `Session.exists_job_of_failure` — the jobs of a steady session.
* `Session.exists_complaints` — the checks of a steady session.
* `Workbook.Runs.reported` — compilations are not aborted, and failures are reported.
-/

namespace TypedSheets

open Recall Attempt
open Definitions (Slot)

/-- **A cast that comes to an end fails at worst**, unless it meets a text that is read as a span
beyond the bounds of spans. -/
theorem Definitions.errorsIn_cast {d : Definitions} {type : String} {cell : Cell}
    (hends : (d.cast type cell).run.fresh ≠ .error .endless)
    (hspan : ∀ y, d.Meets (type, cell) y → ¬ d.SpanOverflow y.1 y.2) :
    (d.cast type cell).run.fresh.ErrorsIn Halt.IsFailure := by
  have hI := (d.remembers_computed anyTexts).toRemembersNames
  intro e he
  by_contra hno
  have hall : (d.values [] (d.depthBound type cell) (type, cell)).ErrorsIn
      fun h => h = .endless ∨ h.IsFailure :=
    errorsIn_values hI (fun _ _ => .inr trivial) (fun _ => .inr trivial) (.inl rfl) [] _
      fun y hy h => absurd h (hspan y hy)
  rcases hall e he with rfl | h
  · exact hends he
  · exact hno h

/-- How the cast of a cell stops, unless the cell has a value. -/
def Definitions.stops? (d : Definitions) (x : Slot) : Option Halt :=
  match (d.cast x.1 x.2).run.fresh with
  | .ok _ => none
  | .error h => some h

theorem Definitions.stops?_eq_some_iff {d : Definitions} {x : Slot} {h : Halt} :
    d.stops? x = some h ↔ (d.cast x.1 x.2).run.fresh = .error h := by
  unfold stops?
  cases (d.cast x.1 x.2).run.fresh <;> simp

/-- A cell of a primitive type that is no range of dates and no call meets nothing but itself. -/
theorem Definitions.eq_of_meets {d : Definitions} {x y : Slot} {f : Flags} {p : Primitive}
    (hx : x.2.constRef? = none) (hstored : d.StoredAs x.1 (.primitive f p))
    (hrange : p ≠ .dateRange) (hcall : p ≠ .call) (h : d.Meets x y) : y = x := by
  induction h with
  | refl => rfl
  | tail _ hstep ih =>
    subst ih
    exfalso
    cases hstep with
    | const h _ => cases hx.symm.trans h
    | part _ h => exact Definitions.not_part_of_primitive hstored hrange hcall h

/-- A cell of another primitive type is not read as a span. -/
theorem Definitions.not_spanOverflow_of_storedAs {d : Definitions} {type : String} {cell : Cell}
    {f : Flags} {p : Primitive} (h : d.StoredAs type (.primitive f p)) (hspan : p ≠ .timeSpan)
    (hrange : p ≠ .dateRange) : ¬ d.SpanOverflow type cell := by
  rintro ⟨f', p', text, h', hp, -⟩
  cases h.unique h'
  rcases hp with rfl | rfl
  · exact hspan rfl
  · exact hrange rfl

/-- A text that can be read as a span is within the bounds. -/
theorem Definitions.not_spanOverflow_of_read {d : Definitions} {type text : String}
    (hnormal : (Cell.text text).normalize = .text text)
    (hread : (Duration.read text.toList).isOk = true) : ¬ d.SpanOverflow type (.text text) := by
  rintro ⟨f, p, text', -, -, htext, e, he⟩
  cases hnormal.symm.trans htext
  rw [he] at hread
  cases hread

theorem Definitions.storedAs_of_root {d : Definitions} {type root : String} {e : TypeExpr}
    (hroot : (d.schemas.rootFrom [] type).toOption = some root)
    (hparse : TypeExpr.parse root = .ok e) : d.StoredAs type e := by
  refine ⟨root, ?_, hparse⟩
  cases hr : d.schemas.rootFrom [] type with
  | ok root' =>
    rw [hr] at hroot
    cases hroot
    rfl
  | error f =>
    rw [hr] at hroot
    cases hroot

/-- Work that fails at worst and comes to no fault is no fault. -/
theorem Outcome.faulted_ofAttempt {ω : Type} {a : Attempt (Outcome ω)}
    (ha : a.StopsIn Halt.IsFailure) (ho : ∀ o, a.run.fresh = .ok o → o.faulted = false) :
    (Outcome.ofAttempt a).fresh.faulted = false := by
  rw [fresh_ofAttempt]
  cases h : a.run.fresh with
  | ok o => exact ho o h
  | error e =>
    cases e with
    | failure f => rfl
    | _ => exact (ha _ h).elim

namespace Session

variable {s : Session} {w : Workbook} {settings : Settings}

/-! ### What is written in a workbook -/

/-- A cell that is cast, under its annotation, with the place, the table and the column that
complaints about it name: a cell of a row, or a constant. -/
inductive WrittenAt (s : Session) (w : Workbook) : Location → String → String → Slot → Prop
  /-- The cell that goes into a column of a row. -/
  | cell {x : SheetRow} {schema : Schema} {c : SchemaColumn} {cell : Cell} (row : x ∈ w.rows)
    (target : s.target? x.sheet x.bold = some schema) (column : c ∈ schema.columns.values)
    (source : s.sourceCell? x.sheet x.bold x.row c.name = some cell) :
    WrittenAt s w (x.sheet.location.atRow x.row) schema.name c.name (c.type, cell)
  /-- A constant. -/
  | const {c : Constant} (const : c ∈ w.consts) :
    WrittenAt s w c.location c.table c.name (c.type, c.value)

/-- A cell or a default text that is cast, under its annotation. -/
inductive Written (s : Session) (w : Workbook) : Slot → Prop
  /-- A cell. -/
  | cell {location : Location} {table column : String} {x : Slot}
    (written : s.WrittenAt w location table column x) : Written s w x
  /-- The default text of a parameter. -/
  | default {p : Prototype} {q : Parameter} {text : String}
    (prototype : p ∈ s.defs.prototypes.values) (parameter : q ∈ p.params)
    (default : q.default = some text) : Written s w (q.type, .text text)

/-- The cells that are cast, each with what complaints about it name. -/
def cells (s : Session) (w : Workbook) : List ((Location × String × String) × Slot) :=
  (w.rows.flatMap fun x => (s.target? x.sheet x.bold).toList.flatMap fun schema =>
    schema.columns.values.filterMap fun c =>
      (s.sourceCell? x.sheet x.bold x.row c.name).map fun cell =>
        ((x.sheet.location.atRow x.row, schema.name, c.name), (c.type, cell))) ++
  w.consts.map fun c => ((c.location, c.table, c.name), (c.type, c.value))

theorem mem_cells {location : Location} {table column : String} {x : Slot} :
    ((location, table, column), x) ∈ s.cells w ↔ s.WrittenAt w location table column x := by
  unfold cells
  constructor
  · intro h
    rcases List.mem_append.1 h with h | h
    · obtain ⟨row, hrow, h⟩ := List.mem_flatMap.1 h
      obtain ⟨schema, hschema, h⟩ := List.mem_flatMap.1 h
      obtain ⟨c, hc, h⟩ := List.mem_filterMap.1 h
      obtain ⟨cell, hcell, h⟩ := Option.map_eq_some_iff.1 h
      cases h
      exact .cell hrow (Option.mem_toList.1 hschema) hc hcell
    · obtain ⟨c, hc, h⟩ := List.mem_map.1 h
      cases h
      exact .const hc
  · intro h
    cases h with
    | @cell row schema c cell hrow htarget hc hsource =>
      refine List.mem_append_left _ (List.mem_flatMap.2 ⟨row, hrow, List.mem_flatMap.2
        ⟨schema, Option.mem_toList.2 htarget, List.mem_filterMap.2 ⟨c, hc, ?_⟩⟩⟩)
      rw [hsource]
      rfl
    | const hc => exact List.mem_append_right _ (List.mem_map.2 ⟨_, hc, rfl⟩)

/-- The casts of all that is written fail at worst. -/
def Steady (s : Session) (w : Workbook) : Prop :=
  ∀ x, s.Written w x → (s.defs.cast x.1 x.2).run.fresh.ErrorsIn Halt.IsFailure

/-! ### Casting -/

/-- A column of a row comes to a value or a complaint, and to the complaint about the cell if that
cannot be cast. -/
theorem exists_castColumn (hs : s.Steady w) {x : SheetRow} (hx : x ∈ w.rows) {schema : Schema}
    (htarget : s.target? x.sheet x.bold = some schema) {c : SchemaColumn}
    (hc : c ∈ schema.columns.values) :
    ∃ r, (s.castColumn schema x.sheet x.bold x.row c).run.fresh = .ok r ∧
      ∀ cell f, s.sourceCell? x.sheet x.bold x.row c.name = some cell →
        (s.defs.cast c.type cell).run.fresh = .error (.failure f) →
        r = .error (castComplaint f (x.sheet.location.atRow x.row) schema.name c.name) := by
  rw [fresh_castColumn]
  cases hsource : s.sourceCell? x.sheet x.bold x.row c.name with
  | none => exact ⟨_, rfl, fun _ _ h => nomatch h⟩
  | some cell =>
    dsimp only
    have hcast := hs _ (.cell (.cell hx htarget hc hsource))
    cases hresult : (s.defs.cast c.type cell).run.fresh with
    | ok v =>
      refine ⟨_, rfl, fun cell' f hcell hfails => ?_⟩
      cases hcell
      cases hresult.symm.trans hfails
    | error e =>
      cases e with
      | failure f =>
        refine ⟨_, rfl, fun cell' f' hcell hfails => ?_⟩
        cases hcell
        cases hresult.symm.trans hfails
        rfl
      | _ => exact (hcast _ hresult).elim

/-- A row comes to its values with the complaints about it, among them those about the cells that
cannot be cast. -/
theorem exists_castRow (hs : s.Steady w) {x : SheetRow} (hx : x ∈ w.rows) {schema : Schema}
    (htarget : s.target? x.sheet x.bold = some schema) :
    ∃ p, (s.castRow schema x.sheet x.bold x.row).run.fresh = .ok p ∧
      ∀ c ∈ schema.columns.values, ∀ cell f,
        s.sourceCell? x.sheet x.bold x.row c.name = some cell →
        (s.defs.cast c.type cell).run.fresh = .error (.failure f) →
        castComplaint f (x.sheet.location.atRow x.row) schema.name c.name ∈ p.1 := by
  obtain ⟨results, hresults⟩ := Except.exists_mapM_ok
    fun c hc => (exists_castColumn hs hx htarget hc).imp fun _ h => h.1
  rw [fresh_castRow, hresults]
  refine ⟨_, rfl, fun c hc cell f hsource hfails => ?_⟩
  obtain ⟨r, hmem, hr⟩ := (Except.mapM_eq_ok_iff.1 hresults).exists_of_mem_left hc
  obtain ⟨r', hr', hcomplaint⟩ := exists_castColumn hs hx htarget hc
  cases hr.symm.trans hr'
  rw [hcomplaint cell f hsource hfails] at hmem
  exact List.mem_filterMap.2 ⟨_, hmem, rfl⟩

/-- The rows of a job come to a chunk, or to the complaints about them. -/
theorem exists_castRows (hs : s.Steady w) {sheet : Sheet} {bold : Bool} {rows : List Nat}
    (hrows : ∀ row ∈ rows, ⟨sheet, bold, row⟩ ∈ w.rows) {schema : Schema}
    (htarget : s.target? sheet bold = some schema) :
    ∃ results, (s.castJob (.rows sheet bold rows)).fresh = chunkOutcome schema sheet results ∧
      List.Forall₂ (fun row p => (s.castRow schema sheet bold row).run.fresh = .ok p)
        rows results := by
  obtain ⟨results, hresults⟩ := Except.exists_mapM_ok
    fun row hrow => (exists_castRow hs (hrows row hrow) htarget).imp fun _ h => h.1
  refine ⟨results, ?_, Except.mapM_eq_ok_iff.1 hresults⟩
  rw [fresh_castRows htarget, hresults]
  rfl

theorem rows_of_job {sheet : Sheet} {bold : Bool} {rows : List Nat} {size : Nat}
    (h : .rows sheet bold rows ∈ castJobs w size) : ∀ row ∈ rows, ⟨sheet, bold, row⟩ ∈ w.rows :=
  fun _ hrow => (Workbook.flatMap_castJobs_perm w size).mem_iff.1
    (List.mem_flatMap.2 ⟨_, h, List.mem_map_of_mem hrow⟩)

/-- No job of a steady session is a fault. -/
theorem faulted_castJob (hresolved : w.resolved settings = .ok s) (hs : s.Steady w) {size : Nat}
    {job : CastJob} (hjob : job ∈ castJobs w size) : (s.castJob job).fresh.faulted = false := by
  cases job with
  | rows sheet bold rows =>
    cases rows with
    | nil =>
      refine Outcome.faulted_ofAttempt ?_ fun o ho => ?_
      · unfold castRows
        split <;> exact stopsIn_pure _
      · unfold castRows at ho
        split at ho <;> cases ho <;> rfl
    | cons row rows =>
      have hrows := rows_of_job hjob
      obtain ⟨schema, htarget⟩ :=
        Workbook.exists_target hresolved (hrows row (List.mem_cons_self ..))
      obtain ⟨results, hresults, -⟩ := exists_castRows hs hrows htarget
      rw [hresults]
      exact Pool.calm_verdictOf ..
  | const c =>
    have hcast := hs _ (.cell (.const (mem_consts_of_job hjob)))
    rw [fresh_castConst]
    cases hresult : (s.defs.cast c.type c.value).run.fresh with
    | ok v => rfl
    | error e =>
      cases e with
      | failure f => rfl
      | _ => exact (hcast _ hresult).elim

/-- The jobs of a steady session are calm. -/
theorem calm_castJobs (hresolved : w.resolved settings = .ok s) (hs : s.Steady w) (size : Nat) :
    Pool.Calm ((castJobs w size).map fun job => (s.castJob job).fresh) := by
  intro o ho
  obtain ⟨job, hjob, rfl⟩ := List.mem_map.1 ho
  exact faulted_castJob hresolved hs hjob

/-- A cell that cannot be cast is complained about by the job that casts it. -/
theorem exists_job_of_failure (hs : s.Steady w) {location : Location} {table column : String}
    {x : Slot} (hx : s.WrittenAt w location table column x) {f : Failure}
    (hf : (s.defs.cast x.1 x.2).run.fresh = .error (.failure f)) (size : Nat) :
    ∃ job ∈ castJobs w size,
      castComplaint f location table column ∈ (s.castJob job).fresh.diagnostics := by
  cases hx with
  | @cell x schema c cell hrow htarget hc hsource =>
    obtain ⟨rows, hjob, hmem⟩ := Workbook.exists_job_of_mem_rows hrow size
    obtain ⟨results, hresults, hall⟩ := exists_castRows hs (rows_of_job hjob) htarget
    obtain ⟨p, hp, hcast⟩ := hall.exists_of_mem_left hmem
    obtain ⟨p', hp', hcomplaint⟩ := exists_castRow hs hrow htarget
    cases hcast.symm.trans hp'
    refine ⟨_, hjob, ?_⟩
    rw [hresults, chunkOutcome, Pool.diagnostics_verdictOf]
    exact List.mem_flatMap.2 ⟨p, hp, hcomplaint c hc cell f hsource hf⟩
  | @const c hc =>
    refine ⟨_, Workbook.const_mem_castJobs hc size, ?_⟩
    rw [fresh_castConst, hf]
    exact List.mem_singleton.2 rfl

/-! ### Checking -/

/-- To fail at worst is passed on to the looking at items. -/
theorem passedOn_stopsIn {P : Halt → Prop} (hP : Halt.Fails P) :
    Check.PassedOn s (StopsIn P) where
  pure := stopsIn_pure
  bind ha hf := ha.bind fun x _ => hf x
  rootType type := (Definitions.stopsIn_rootType hP.ordinary type).result
  memberValue _ member := (EnumTables.stopsIn_memberValue hP.ordinary member).result
  texts _ := stopsIn_lift _

section Defaults

variable (hdefault : ∀ p ∈ s.defs.prototypes.values, ∀ q ∈ p.params, ∀ text,
  q.default = some text → StopsIn Halt.IsFailure (s.defs.cast q.type (.text text)))

include hdefault

/-- No item of a check is a fault, if the casts of default texts fail at worst. -/
theorem calm_items {c : Check} (hc : c ∈ Check.all) : Pool.Calm ((c.items s w).map fun item =>
    (Outcome.ofAttempt (Check.examine item)).fresh) := by
  have hitems : ∀ item ∈ c.items s w, item.StopsIn Halt.IsFailure :=
    (passedOn_stopsIn fun _ => trivial).items
      (fun p hp q hq text hd => (hdefault p hp q hq text hd).result) hc
  intro o ho
  obtain ⟨item, hitem, rfl⟩ := List.mem_map.1 ho
  refine Outcome.faulted_ofAttempt ((hitems item hitem).bind fun _ _ => stopsIn_pure _) ?_
  intro o ho
  rw [Check.examine, fresh_bind_run] at ho
  obtain ⟨complaints, -, ho⟩ := Except.exists_of_bind_ok ho
  cases ho
  split <;> rfl

/-- A check is made to its end, if the casts of default texts fail at worst. -/
theorem exists_report {c : Check} (hc : c ∈ Check.all) :
    ∃ found, (c.report s w).fresh = .ok found := by
  rw [Check.fresh_report, Check.run, Pool.fresh_run]
  cases hgather : Pool.gather c.name ((c.items s w).map fun item =>
      (Outcome.ofAttempt (Check.examine item)).fresh) with
  | ok _ => exact ⟨[], rfl⟩
  | error f =>
    cases f with
    | rejected complaints => exact ⟨complaints, rfl⟩
    | aborted faults => exact absurd hgather ((calm_items hdefault hc).not_aborted _ faults)

/-- All checks are made to their ends, if the casts of default texts fail at worst. -/
theorem exists_complaints : ∃ found, (s.complaints w).run.fresh = .ok found := by
  have hall (cs : List Check) (hcs : ∀ c ∈ cs, c ∈ Check.all) :
      ∃ found, (s.complaintsOf w cs).run.fresh = .ok found := by
    induction cs with
    | nil => exact ⟨[], rfl⟩
    | cons c cs ih =>
      rw [List.forall_mem_cons] at hcs
      obtain ⟨found, hfound⟩ := exists_report (w := w) hdefault hcs.1
      obtain ⟨rest, hrest⟩ := ih hcs.2
      refine ⟨found ++ rest, ?_⟩
      rw [complaintsOf, fresh_bind_run, ExceptT.run_mk, hfound]
      show (s.complaintsOf w cs >>= fun rest => pure (found ++ rest)).run.fresh = _
      rw [fresh_bind_run, hrest]
      rfl
  exact hall Check.all fun _ hc => hc

end Defaults

end Session

/-! ### Whole compilations -/

namespace Workbook

variable {w : Workbook} {settings : Settings} {workers : Nat}

/-- A compilation whose tables are not resolved is not aborted. -/
theorem Runs.not_aborted_of_unresolved {r : Except RunFailure Compiled}
    (h : w.Runs settings workers r) {f : RunFailure} (hf : w.resolved settings = .error f)
    (faults : List String) : r ≠ .error (.aborted faults) := by
  have hno {schemas : List Schema} {s : Session}
      (h : w.Resolves settings workers (.ok schemas)) (hs : w.entered settings schemas = .ok s) :
      False := by
    rw [resolved_eq, h.ok_iff.1 rfl] at hf
    cases hs.symm.trans hf
  cases h with
  | unresolved h =>
    rintro ⟨⟩
    exact h.not_aborted faults rfl
  | unsettled h hs =>
    rintro ⟨⟩
    unfold entered at hs
    dsimp only at hs
    split at hs <;> cases hs
  | uncast h hs => exact (hno h hs).elim
  | checked h hs => exact (hno h hs).elim

/-- A compilation whose tables are resolved is cast and checked with their session. -/
theorem Runs.of_resolved {r : Except RunFailure Compiled} (h : w.Runs settings workers r)
    {s : Session} (hs : w.resolved settings = .ok s) : r = (do
      let data ← (s.castAll w).run.fresh
      Session.verdict { s with data } (Session.complaints { s with data } w).run.fresh) := by
  obtain ⟨schemas, hschemas, -⟩ := resolved_ok hs
  have hnone : w.tables.entries.filter (fun t => (w.resolveJob settings t).failed) = [] :=
    List.filter_eq_nil_iff.2 fun t ht => by
      obtain ⟨ts, hts, -⟩ := resolveJob_of_resolve hschemas ht
      simp [hts, Outcome.failed]
  rw [h.fresh fun _ => hnone ▸ Nat.zero_le 1, fresh_compile, hs]
  rfl

section Steady

variable {r : Except RunFailure Compiled} {s : Session} (h : w.Runs settings workers r)
  (hresolved : w.resolved settings = .ok s) (hs : s.Steady w)

include h hresolved hs

/-- A compilation with a steady session is not aborted. -/
theorem Runs.not_aborted_of_steady (faults : List String) : r ≠ .error (.aborted faults) := by
  have hr := h.of_resolved hresolved
  rw [Session.fresh_castAll] at hr
  cases hgather : Pool.gather "cast" ((castJobs w s.settings.rowsPerJob).map
      fun job => (s.castJob job).fresh) with
  | error f =>
    rw [hgather] at hr
    rintro rfl
    cases hr
    exact (Session.calm_castJobs hresolved hs _).not_aborted _ faults hgather
  | ok outputs =>
    obtain ⟨found, hfound⟩ := Session.exists_complaints (w := w)
      (s := { s with data := (outputs.foldl TableData.addOutput {}).finish })
      fun p hp q hq text hd => hs (q.type, .text text) (.default hp hq hd)
    rw [hgather] at hr
    change r = Session.verdict _ (Session.complaints _ w).run.fresh at hr
    rw [hr, hfound, Session.verdict]
    split <;> rintro ⟨⟩

/-- A compilation with a steady session reports the cells that cannot be cast. -/
theorem Runs.rejected_of_failure {location : Location} {table column : String} {x : Slot}
    (hx : s.WrittenAt w location table column x) {f : Failure}
    (hf : (s.defs.cast x.1 x.2).run.fresh = .error (.failure f)) :
    ∃ diagnostics, r = .error (.rejected diagnostics) ∧
      Session.castComplaint f location table column ∈ diagnostics := by
  obtain ⟨job, hjob, hmem⟩ := Session.exists_job_of_failure hs hx hf s.settings.rowsPerJob
  have hjob : (s.castJob job).fresh ∈
      (castJobs w s.settings.rowsPerJob).map fun job => (s.castJob job).fresh :=
    List.mem_map_of_mem hjob
  have hr := h.of_resolved hresolved
  rw [Session.fresh_castAll, Pool.gather_of_rejected (Session.calm_castJobs hresolved hs _)
    ⟨_, hjob, List.ne_nil_of_mem hmem⟩] at hr
  exact ⟨_, hr, List.mem_flatMap.2 ⟨_, hjob, hmem⟩⟩

end Steady

/-- **Nothing that is written aborts a compilation**, whatever the number of workers and the order
of their turns, as long as the casts of all that is written come to an end and meet no text that is
read as a span beyond the bounds of spans. Then every cell of a sheet and every constant that cannot
be cast is reported, with its place and its column. -/
theorem Runs.reported {r : Except RunFailure Compiled} (h : w.Runs settings workers r)
    (hends : ∀ s, w.resolved settings = .ok s → ∀ x, s.Written w x →
      (s.defs.cast x.1 x.2).run.fresh ≠ .error .endless)
    (hspan : ∀ s, w.resolved settings = .ok s → ∀ x, s.Written w x → ∀ y, s.defs.Meets x y →
      ¬ s.defs.SpanOverflow y.1 y.2) :
    (∀ faults, r ≠ .error (.aborted faults)) ∧
      ∀ s, w.resolved settings = .ok s → ∀ location table column x f,
        s.WrittenAt w location table column x →
        (s.defs.cast x.1 x.2).run.fresh = .error (.failure f) →
        ∃ diagnostics, r = .error (.rejected diagnostics) ∧
          Session.castComplaint f location table column ∈ diagnostics := by
  have hsteady (s : Session) (hs : w.resolved settings = .ok s) : s.Steady w := fun x hx =>
    Definitions.errorsIn_cast (hends s hs x hx) (hspan s hs x hx)
  constructor
  · cases hresolved : w.resolved settings with
    | error f => exact h.not_aborted_of_unresolved hresolved
    | ok s => exact h.not_aborted_of_steady hresolved (hsteady s hresolved)
  · intro s hs location table column x f hx hf
    exact h.rejected_of_failure hs (hsteady s hs) hx hf

/-- Skills with the times that have to pass between two uses, the last of which is given. -/
def skills (cooldown : String) : Workbook where
  sheets := [
    { location := ⟨"skill.xlsx", "Skill", none⟩, table := "Skill", based := none, group := none,
      columns := [
        ⟨"Id", "*int", .common, false, .ofList [(1, .text "1"), (2, .text "2")]⟩,
        ⟨"Cooldown", "TimeSpan", .common, false,
          .ofList [(1, .text "00:30"), (2, .text cooldown)]⟩] }]

/-- A time of more days than a span can have. -/
def overlong : String := "999999999999.00:00"

/-- What can be evaluated for the session of a workbook is true of it. -/
theorem holds_of_resolved {s : Session} (hs : w.resolved settings = .ok s) {P : Session → Prop}
    [DecidablePred P] (h : (w.resolved settings).toOption.all (fun s => decide (P s)) = true) :
    P s := by
  rw [hs] at h
  exact of_decide_eq_true h

/-- The casts of the cells of a table of skills come to an end and meet no span beyond the
bounds. -/
theorem skills_written {s : Session} (hs : (skills overlong).resolved {} = .ok s) {x : Slot}
    (hx : s.Written (skills overlong) x) :
    s.defs.stops? x ≠ some .endless ∧ ∀ y, s.defs.Meets x y → ¬ s.defs.SpanOverflow y.1 y.2 := by
  have hcells := holds_of_resolved hs (P := fun s =>
    (s.cells (skills overlong)).map Prod.snd = [("*int", .text "1"), ("TimeSpan", .text "00:30"),
      ("*int", .text "2"), ("TimeSpan", .text overlong)]) (by decide +kernel)
  have hends := holds_of_resolved hs (P := fun s =>
    ∀ x ∈ (s.cells (skills overlong)).map Prod.snd, s.defs.stops? x ≠ some .endless)
    (by decide +kernel)
  have hprototypes := holds_of_resolved hs (P := fun s => s.defs.prototypes.values.length = 0)
    (by decide +kernel)
  have hroots := holds_of_resolved hs (P := fun s =>
    (s.schemas.rootFrom [] "*int").toOption = some "int" ∧
      (s.schemas.rootFrom [] "TimeSpan").toOption = some "TimeSpan") (by decide +kernel)
  have hint : s.defs.StoredAs "*int" (.primitive {} .int32) :=
    Definitions.storedAs_of_root hroots.1 (by decide +kernel)
  have hspan : s.defs.StoredAs "TimeSpan" (.primitive {} .timeSpan) :=
    Definitions.storedAs_of_root hroots.2 (by decide +kernel)
  have hnumber {cell : Cell} (hlink : cell.constRef? = none) (y : Slot)
      (hy : s.defs.Meets ("*int", cell) y) : ¬ s.defs.SpanOverflow y.1 y.2 := by
    cases Definitions.eq_of_meets hlink hint (by decide) (by decide) hy
    exact Definitions.not_spanOverflow_of_storedAs hint (by decide) (by decide)
  have htime {text : String} (hlink : (Cell.text text).constRef? = none)
      (hnormal : (Cell.text text).normalize = .text text)
      (hread : (Duration.read text.toList).isOk = true) (y : Slot)
      (hy : s.defs.Meets ("TimeSpan", .text text) y) : ¬ s.defs.SpanOverflow y.1 y.2 := by
    cases Definitions.eq_of_meets hlink hspan (by decide) (by decide) hy
    exact Definitions.not_spanOverflow_of_read hnormal hread
  cases hx with
  | default hp =>
    rw [List.eq_nil_of_length_eq_zero hprototypes] at hp
    cases hp
  | cell hx =>
    have hmem : x ∈ (s.cells (skills overlong)).map Prod.snd :=
      List.mem_map.2 ⟨_, Session.mem_cells.2 hx, rfl⟩
    refine ⟨hends x hmem, ?_⟩
    rw [hcells] at hmem
    simp only [List.mem_cons, List.not_mem_nil, or_false] at hmem
    rcases hmem with rfl | rfl | rfl | rfl
    · exact hnumber (by decide +kernel)
    · exact htime (by decide +kernel) (by decide +kernel) (by decide +kernel)
    · exact hnumber (by decide +kernel)
    · exact htime (by decide +kernel) (by decide +kernel) (by decide +kernel)

/-- A time of more days than a span can have is no fault: two workers report it in its row. -/
theorem skills_reported : ∃ diagnostics,
    (skills overlong).Runs {} 2 (.error (.rejected diagnostics)) ∧
      Session.castComplaint (.typeCast overlong "TimeSpan" "expected [d.]hh:mm[:ss]")
        ⟨"skill.xlsx", "Skill", some 2⟩ "Skill" "Cooldown" ∈ diagnostics := by
  obtain ⟨r, hr⟩ := (skills overlong).exists_runs {} 2
  have hok : ((skills overlong).resolved {}).toOption.isSome = true := by decide +kernel
  cases hs : (skills overlong).resolved {} with
  | error f =>
    rw [hs] at hok
    cases hok
  | ok s =>
    have hcell := holds_of_resolved hs (P := fun s =>
      ((⟨"skill.xlsx", "Skill", some 2⟩, "Skill", "Cooldown"), ("TimeSpan", .text overlong)) ∈
        s.cells (skills overlong)) (by decide +kernel)
    have hfails := holds_of_resolved hs (P := fun s =>
      s.defs.stops? ("TimeSpan", .text overlong) =
        some (.failure (.typeCast overlong "TimeSpan" "expected [d.]hh:mm[:ss]")))
      (by decide +kernel)
    obtain ⟨-, hreported⟩ := hr.reported
      (fun s hs x hx hend =>
        (skills_written hs hx).1 (Definitions.stops?_eq_some_iff.2 hend))
      fun s hs x hx => (skills_written hs hx).2
    obtain ⟨diagnostics, rfl, hmem⟩ :=
      hreported s hs _ _ _ _ _ (Session.mem_cells.1 hcell)
        (Definitions.stops?_eq_some_iff.1 hfails)
    exact ⟨diagnostics, hr, hmem⟩

/-- **A span beyond the bounds aborts a compilation.** The days and the hours of a time are spans by
themselves, but not together: that is a fault, and nothing is reported about the cell. -/
theorem skills_aborted : (skills "106751991167.08:00").Runs {} 2
    (.error (.aborted ["cast: work item 0 panicked: " ++ Duration.Overflow.sum.message])) := by
  obtain ⟨r, hr⟩ := (skills "106751991167.08:00").exists_runs {} 2
  have hfresh := hr.fresh fun _ => by decide +kernel
  have hresult : ((skills "106751991167.08:00").compile {}).run.fresh.map (fun _ => ()) =
      .error (.aborted ["cast: work item 0 panicked: " ++ Duration.Overflow.sum.message]) := by
    decide +kernel
  rw [← hfresh] at hresult
  cases r with
  | ok c => cases hresult
  | error f =>
    cases hresult
    exact hr

end Workbook

end TypedSheets
