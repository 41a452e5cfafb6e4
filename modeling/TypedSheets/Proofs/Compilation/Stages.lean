import TypedSheets.Compilation
import TypedSheets.Proofs.Casting.Sound
import TypedSheets.Proofs.Check.Silent

/-!
# The stages of a compilation

A compilation that comes to an end has passed its three stages: the tables are resolved, all jobs of
casting have succeeded, and no check has a complaint. What each stage has computed it has computed
with a sound memory.

## Main definitions

* `Workbook.Compiles` — a compilation comes to an end.
* `Session.Sound` — the memory of a session with data: texts of columns are those of the data.
* `Workbook.Passed` — a session, with its data, that has passed all stages.

## Main results

* `Workbook.Compiles.passed` — a compilation that comes to an end has passed its stages.
-/

namespace TypedSheets

open Recall

/-- The compilation of a workbook, with nothing remembered at its start, comes to an end. -/
def Workbook.Compiles (w : Workbook) (settings : Settings) (c : Compiled) : Prop :=
  ((w.compile settings).run.run {}).1 = .ok c

/-- A compilation comes to an end with a result that passes a test, if it does so with nothing
remembered at all. -/
theorem Workbook.exists_compiles (w : Workbook) (settings : Settings) (test : Compiled → Bool)
    (h : ((w.compile settings).run.runOn []).toOption.any test = true) :
    ∃ c, w.Compiles settings c ∧ test c = true := by
  rw [← fst_run_empty] at h
  cases hc : ((w.compile settings).run.run {}).1 with
  | error e =>
    rw [hc] at h
    cases h
  | ok c =>
    rw [hc] at h
    exact ⟨c, hc, h⟩

/-- The condition on the memory of a session with data: what is remembered of casts is sound, and
the texts of columns are those of the data. -/
def Session.Sound (s : Session) : Condition :=
  s.defs.Sound fun table column texts => texts = s.columnTexts table column

/-- The condition on a memory before there is any data: no texts of columns are remembered. -/
def Definitions.Early (d : Definitions) : Condition :=
  d.Sound fun _ _ _ => False

theorem Definitions.Early.sound {s : Session} (q : Query) (a : q.Answer) (h : s.defs.Early q a) :
    s.Sound q a := by
  cases q with
  | realized table column => cases h
  | _ => exact h

/-- Every request keeps the memory of a session sound. -/
theorem Session.respects (s : Session) : s.Respects s.Sound :=
  s.respond_keeps (R := fun table column texts => texts = s.columnTexts table column)
    fun _ _ => rfl

/-! ### Casting -/

/-- A request for the value of a cell. -/
def Request.IsCast : Request → Prop
  | .cast .. => True
  | _ => False

namespace Session

/-- A computation asks a session for nothing but the values of cells. -/
abbrev AsksCasts (s : Session) {α : Type} (c : Recall α) : Prop :=
  s.Asks Request.IsCast c

variable {s : Session}

theorem asks_castColumn (schema : Schema) (sheet : Sheet) (bold : Bool) (row : Nat)
    (column : SchemaColumn) : s.AsksCasts (s.castColumn schema sheet bold row column).run := by
  unfold castColumn
  split
  · exact .done _
  · refine .bind_run (.result (.request (.cast ..) trivial)) fun r => ?_
    cases r <;> exact .done _

theorem asks_castRow (schema : Schema) (sheet : Sheet) (bold : Bool) (row : Nat) :
    s.AsksCasts (s.castRow schema sheet bold row).run :=
  .bind_run (.mapM_run fun c => asks_castColumn schema sheet bold row c) fun _ => .done _

theorem asks_castRows (sheet : Sheet) (bold : Bool) (rows : List Nat) :
    s.AsksCasts (s.castRows sheet bold rows).run := by
  unfold castRows
  split
  · exact .done _
  · refine .bind_run (.mapM_run fun row => asks_castRow _ sheet bold row) fun _ => ?_
    dsimp only
    split <;> exact .done _

theorem asks_castConst (c : Constant) : s.AsksCasts (s.castConst c).run := by
  refine .bind_run (.result (.request (.cast ..) trivial)) fun r => ?_
  cases r <;> exact .done _

/-- The work on a job is made of requests for the values of cells. -/
theorem asks_castJob (job : CastJob) : s.AsksCasts (s.castJob job) := by
  cases job with
  | rows sheet bold rows => exact .ofAttempt (asks_castRows sheet bold rows)
  | const c => exact .ofAttempt (asks_castConst c)

/-- Casting keeps an early memory. -/
theorem AsksCasts.early {α : Type} {c : Recall α} (h : s.AsksCasts c) : Keeps s.defs.Early c :=
  h.keeps fun r hr => by
    cases r with
    | cast type cell => exact (s.defs.cast_yields type cell).keeps
    | _ => cases hr

theorem keeps_castAll (s : Session) (w : Workbook) : Keeps s.defs.Early (s.castAll w).run :=
  Keeps.map_run
    (c := ExceptT.mk (Pool.run "cast" false s.castJob (castJobs w s.settings.rowsPerJob)))
    (Pool.keeps_run fun job _ => AsksCasts.early (asks_castJob job))

end Session

/-! ### All stages -/

/-- A session, with its data, that has passed all stages of the compilation of a workbook. -/
structure Workbook.Passed (w : Workbook) (settings : Settings) (s : Session) : Prop where
  /-- The session is that of the resolved workbook, with data. -/
  resolved : ∃ s₀ data, w.resolved settings = .ok s₀ ∧ s = { s₀ with data }
  /-- The data are cast. -/
  cast : Gives s.defs.Early (s.castAll w).run (.ok s.data)
  /-- No item of a check has complaints. -/
  silent (c : Check) (hc : c ∈ Check.all) (item : Attempt (List Diagnostic))
    (hi : item ∈ c.items s w) : Gives s.Sound item.run (.ok [])

theorem Session.keeps_validate (s : Session) (w : Workbook) :
    Keeps s.Sound (s.validate w).run := by
  have hk : Keeps s.Sound (s.complaints w).run := keeps_complaintsOf s.respects fun _ hc => hc
  refine Keeps.bind_run (yields_adapt hk.yields).keeps fun found => ?_
  split <;> exact Keeps.pure _

theorem Session.gives_validate {s : Session} {w : Workbook}
    (h : Gives s.Sound (s.validate w).run (.ok ())) :
    ∀ c ∈ Check.all, ∀ item ∈ c.items s w, Gives s.Sound item.run (.ok []) := by
  have hk : Keeps s.Sound (s.complaints w).run :=
    keeps_complaintsOf s.respects fun _ hc => hc
  obtain ⟨found, hfound, h⟩ := h.bind_ok (yields_adapt hk.yields).keeps
  cases found with
  | nil => exact silent_checks s.respects (fun _ hc => hc) hfound.adapt_ok
  | cons d ds => cases h.pure

theorem Workbook.yields_resolved {w : Workbook} {settings : Settings} {I : Condition} :
    Yields I (ExceptT.mk (.done (w.resolved settings)) : Stage Session) fun s =>
      w.resolved settings = .ok s :=
  fun _ h => h

/-- Preparing keeps an early memory, whatever session the tables are resolved to. -/
theorem Workbook.keeps_prepare {w : Workbook} {settings : Settings} {s : Session}
    (hs : w.resolved settings = .ok s) : Keeps s.defs.Early (w.prepare settings).run := by
  refine (yields_resolved.bind (Q := fun _ => True) fun s' hs' => ?_).keeps
  rw [hs] at hs'
  cases hs'
  exact (Keeps.bind_run (Session.keeps_castAll s w) fun _ => Keeps.pure _).yields

/-- A session that is prepared is the resolved one with the data cast under it. -/
theorem Workbook.gives_prepare {w : Workbook} {settings : Settings} {s s' : Session}
    (hs : w.resolved settings = .ok s)
    (h : Gives s.defs.Early (w.prepare settings).run (.ok s')) :
    ∃ data, Gives s.defs.Early (s.castAll w).run (.ok data) ∧ s' = { s with data } := by
  obtain ⟨s₀, hs₀, h⟩ := Gives.bind_ok (c := ExceptT.mk (.done (w.resolved settings))) h trivial
  have hs₀ := hs₀.pure
  rw [hs] at hs₀
  cases hs₀
  obtain ⟨data, hdata, h⟩ := h.bind_ok (Session.keeps_castAll s w)
  exact ⟨data, hdata, h.pure_ok.symm⟩

/-- A compilation that comes to an end has passed its stages, and hands out what they have come
to. -/
theorem Workbook.Compiles.passed {w : Workbook} {settings : Settings} {c : Compiled}
    (h : w.Compiles settings c) : ∃ s, w.Passed settings s ∧ c = s.compiled := by
  cases hs : w.resolved settings with
  | error f =>
    unfold Compiles compile prepare at h
    rw [hs] at h
    cases h
  | ok s =>
    have hall : Gives s.defs.Early (w.compile settings).run (.ok c) :=
      ⟨{}, Memory.meets_empty _, h⟩
    obtain ⟨s', hprepare, hrest⟩ := hall.bind_ok (keeps_prepare hs)
    obtain ⟨data, hdata, rfl⟩ := gives_prepare hs hprepare
    -- from here on the memory may hold the texts of columns
    have hsound := Definitions.Early.sound (s := { s with data })
    obtain ⟨⟨⟩, hvalid, h⟩ := (hrest.mono hsound).bind_ok (Session.keeps_validate _ w)
    exact ⟨_, ⟨⟨s, data, hs, rfl⟩, hdata, Session.gives_validate hvalid⟩, h.pure_ok.symm⟩

end TypedSheets
