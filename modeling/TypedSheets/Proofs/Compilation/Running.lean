import TypedSheets.Proofs.Compilation.Resolved
import TypedSheets.Proofs.Compilation.Stages
import TypedSheets.Proofs.Pool.Runs
import TypedSheets.Proofs.Session.Transparency

/-!
# Compilations with several workers

Each stage of a compilation is a run of the pool, and the memory that one run leaves is that with
which the next begins. Whatever the number of workers and the order of their turns, a compilation
comes to what it comes to without a memory; only the tables that fail to be resolved must not be
several, as a pool that halts may come to any of them.

## Main definitions

* `Workbook.Resolves`, `Session.Casts`, `Check.Reports`, `Session.Complains` — what the stages of a
  compilation can come to.
* `Workbook.Runs` — what a whole compilation can come to.

## Main results

* `Workbook.exists_runs` — every compilation comes to something.
* `Workbook.Runs.fresh` — it comes to what it comes to without a memory.
-/

namespace TypedSheets

open Recall

/-! ### Stages -/

/-- The result of resolving all tables with some workers. -/
def Workbook.Resolves (w : Workbook) (settings : Settings) (workers : Nat)
    (r : Except RunFailure (List Schema)) : Prop :=
  ∃ m, Pool.Runs "resolve" true workers (fun table => pure (w.resolveJob settings table))
    w.tables.entries {} r m

/-- A session with the resolved tables, unless some of them inherit from nothing or from
themselves. -/
def Workbook.entered (w : Workbook) (settings : Settings) (schemas : List Schema) :
    Except RunFailure Session :=
  let s := schemas.foldl Session.withSchema (Session.ofWorkbook settings w)
  if s.inheritanceFaults.isEmpty then .ok s else .error (.rejected s.inheritanceFaults)

/-- The result of casting all data with some workers, and the memory that is left. -/
def Session.Casts (s : Session) (w : Workbook) (workers : Nat) (m : Memory)
    (r : Except RunFailure TableData) (m' : Memory) : Prop :=
  ∃ r', Pool.Runs "cast" false workers s.castJob (castJobs w s.settings.rowsPerJob) m r' m' ∧
    r = r'.map TableData.ofOutputs

/-- The complaints of a run of a check, or the faults that kept it from its end. -/
def Check.found : Except RunFailure (List Unit) → Except (List String) (List Diagnostic)
  | .ok _ => .ok []
  | .error (.rejected complaints) => .ok complaints
  | .error (.aborted faults) => .error faults

/-- The result of a check with some workers, and the memory that is left. -/
def Check.Reports (c : Check) (s : Session) (w : Workbook) (workers : Nat) (m : Memory)
    (r : Except (List String) (List Diagnostic)) (m' : Memory) : Prop :=
  ∃ r', Pool.Runs c.name false workers (fun item => Outcome.ofAttempt (Check.examine item))
    (c.items s w) m r' m' ∧ r = found r'

/-- The result of checks with some workers, one check after the other. -/
inductive Session.Complains (s : Session) (w : Workbook) (workers : Nat) :
    List Check → Memory → Except (List String) (List Diagnostic) → Prop
  /-- There are no checks. -/
  | nil {m : Memory} : Complains s w workers [] m (.ok [])
  /-- Faults keep a check from its end. -/
  | fault {c : Check} {cs : List Check} {m m' : Memory} {faults : List String}
    (h : c.Reports s w workers m (.error faults) m') :
    Complains s w workers (c :: cs) m (.error faults)
  /-- The complaints of a check, and then those of the others. -/
  | cons {c : Check} {cs : List Check} {m m' : Memory} {found : List Diagnostic}
    {r : Except (List String) (List Diagnostic)} (h : c.Reports s w workers m (.ok found) m')
    (hrest : Complains s w workers cs m' r) :
    Complains s w workers (c :: cs) m (r.map (found ++ ·))

/-- What a session hands out once all checks are made. -/
def Session.verdict (s : Session) :
    Except (List String) (List Diagnostic) → Except RunFailure Compiled
  | .ok found => if found.isEmpty then .ok s.compiled else .error (.rejected found)
  | .error faults => .error (.aborted faults)

/-- The result of a compilation with some workers, with nothing remembered at its start. -/
inductive Workbook.Runs (w : Workbook) (settings : Settings) (workers : Nat) :
    Except RunFailure Compiled → Prop
  /-- Some table cannot be resolved. -/
  | unresolved {f : RunFailure} (h : w.Resolves settings workers (.error f)) :
    Runs w settings workers (.error f)
  /-- Some table inherits from nothing or from itself. -/
  | unsettled {schemas : List Schema} {f : RunFailure}
    (h : w.Resolves settings workers (.ok schemas))
    (hs : w.entered settings schemas = .error f) : Runs w settings workers (.error f)
  /-- Something cannot be cast. -/
  | uncast {schemas : List Schema} {s : Session} {f : RunFailure} {m : Memory}
    (h : w.Resolves settings workers (.ok schemas)) (hs : w.entered settings schemas = .ok s)
    (hcast : s.Casts w workers {} (.error f) m) : Runs w settings workers (.error f)
  /-- Everything is checked. -/
  | checked {schemas : List Schema} {s : Session} {data : TableData} {m : Memory}
    {r : Except (List String) (List Diagnostic)} (h : w.Resolves settings workers (.ok schemas))
    (hs : w.entered settings schemas = .ok s) (hcast : s.Casts w workers {} (.ok data) m)
    (hcheck : ({ s with data } : Session).Complains w workers Check.all m r) :
    Runs w settings workers (({ s with data } : Session).verdict r)

/-! ### Every compilation comes to something -/

theorem Session.exists_complains (s : Session) (w : Workbook) (workers : Nat) (cs : List Check)
    (m : Memory) : ∃ r, s.Complains w workers cs m r := by
  induction cs generalizing m with
  | nil => exact ⟨_, .nil⟩
  | cons c cs ih =>
    obtain ⟨r, m', h⟩ := Pool.exists_runs c.name false workers
      (fun item => Outcome.ofAttempt (Check.examine item)) (c.items s w) m
    cases hfound : Check.found r with
    | error faults => exact ⟨_, .fault ⟨r, h, hfound.symm⟩⟩
    | ok found =>
      obtain ⟨rest, hrest⟩ := ih m'
      exact ⟨_, .cons ⟨r, h, hfound.symm⟩ hrest⟩

/-- Tables are resolved to something. -/
theorem Workbook.exists_resolves (w : Workbook) (settings : Settings) (workers : Nat) :
    ∃ r, w.Resolves settings workers r :=
  (Pool.exists_runs "resolve" true workers (fun table => pure (w.resolveJob settings table))
    w.tables.entries {}).imp fun _ h => h

/-- Data are cast to something. -/
theorem Session.exists_casts (s : Session) (w : Workbook) (workers : Nat) (m : Memory) :
    ∃ r m', s.Casts w workers m r m' := by
  obtain ⟨r, m', h⟩ := Pool.exists_runs "cast" false workers s.castJob
    (castJobs w s.settings.rowsPerJob) m
  exact ⟨_, m', r, h, rfl⟩

/-- Every compilation comes to something. -/
theorem Workbook.exists_runs (w : Workbook) (settings : Settings) (workers : Nat) :
    ∃ r, w.Runs settings workers r := by
  obtain ⟨r, h⟩ := w.exists_resolves settings workers
  cases r with
  | error f => exact ⟨_, .unresolved h⟩
  | ok schemas =>
    cases hs : w.entered settings schemas with
    | error f => exact ⟨_, .unsettled h hs⟩
    | ok s =>
      obtain ⟨r, m, hcast⟩ := s.exists_casts w workers {}
      cases r with
      | error f => exact ⟨_, .uncast h hs hcast⟩
      | ok data =>
        obtain ⟨found, hfound⟩ :=
          ({ s with data } : Session).exists_complains w workers Check.all m
        exact ⟨_, .checked h hs hcast hfound⟩

/-! ### Stages without a memory -/

namespace Pool

variable {ι ω : Type}

/-- Without a memory, a run comes to what its items come to. -/
theorem fresh_run (stage : String) (work : ι → Recall (Outcome ω)) (items : List ι) :
    (run stage false work items).fresh = gather stage (items.map fun i => (work i).fresh) := by
  rw [run, outcomes_false, fresh_map, fresh_mapM]

/-- Work that asks for nothing leaves the memory as it is. -/
theorem run_pure (stage : String) (halting : Bool) (f : ι → Outcome ω) (items : List ι)
    (m : Memory) :
    (run stage halting (fun i => (pure (f i) : Recall (Outcome ω))) items).run m =
      ((run stage halting (fun i => (pure (f i) : Id (Outcome ω))) items).run, m) := by
  have houtcomes : (outcomes halting (fun i => (pure (f i) : Recall (Outcome ω))) items).run m =
      ((outcomes halting (fun i => (pure (f i) : Id (Outcome ω))) items).run, m) := by
    induction items with
    | nil => rfl
    | cons i items ih =>
      simp only [outcomes, Recall.pure_bind', Id.run_bind, Id.run_pure]
      split
      · rfl
      · rw [run_bind, ih]
        rfl
  rw [run, run_map, houtcomes]
  rfl

end Pool

variable {w : Workbook} {settings : Settings} {workers : Nat}

theorem Workbook.resolveJob_unfaulted {table : String × List Sheet} :
    (w.resolveJob settings table).faulted = false := by
  unfold resolveJob
  dsimp only
  split
  · rfl
  · split <;> rfl

/-- With one worker, or if at most one table cannot be resolved, tables are resolved as in their
order. -/
theorem Workbook.Resolves.eq {r : Except RunFailure (List Schema)}
    (h : w.Resolves settings workers r)
    (hone : 1 < workers →
      (w.tables.entries.filter fun t => (w.resolveJob settings t).failed).length ≤ 1) :
    r = w.resolve settings := by
  obtain ⟨m, hruns⟩ := h
  have hsolo {r : Except RunFailure (List Schema)} {m : Memory}
      (h : Pool.Runs "resolve" true 1 (fun table => pure (w.resolveJob settings table))
        w.tables.entries {} r m) : r = w.resolve settings := by
    have h := h.one
    rw [Pool.run_pure] at h
    exact (congrArg Prod.fst h).symm
  by_cases hworkers : 1 < workers
  · have hplain : ∀ table ∈ w.tables.entries,
        Plain (fun _ _ => True) (pure (w.resolveJob settings table)) := fun _ _ => rfl
    have hsame {n : Nat} {r : Except RunFailure (List Schema)} {m : Memory}
        (h : Pool.Runs "resolve" true n (fun table => pure (w.resolveJob settings table))
          w.tables.entries {} r m) :
        r = Pool.gather "resolve" (w.tables.entries.map (w.resolveJob settings)) :=
      h.single_failure hplain (Memory.meets_empty _) (fun _ _ => resolveJob_unfaulted)
        (fun _ _ => resolveJob_full) (hone hworkers)
    obtain ⟨r', m', h⟩ := Pool.exists_runs "resolve" true 1
      (fun table => pure (w.resolveJob settings table)) w.tables.entries {}
    rw [hsame hruns, ← hsame h, hsolo h]
  · have hstart : max 1 workers = max 1 1 := by omega
    refine hsolo (m := m) ?_
    unfold Pool.Runs Pool.start at hruns ⊢
    rwa [hstart] at hruns

/-! ### Whole compilations without a memory -/

theorem Workbook.resolved_eq :
    w.resolved settings = w.resolve settings >>= w.entered settings := by
  unfold resolved entered
  refine bind_congr fun schemas => ?_
  dsimp only
  split <;> rfl

section Session

variable {s : Session} {m m' : Memory}

/-- Casting comes to what it comes to without a memory. -/
theorem Session.Casts.fresh {I : Condition} {r : Except RunFailure TableData}
    (h : s.Casts w workers m r m') (hplain : ∀ job, Plain I (s.castJob job)) (hm : m.Meets I) :
    r = (s.castAll w).run.fresh ∧ m'.Meets I := by
  obtain ⟨r', hruns, rfl⟩ := h
  obtain ⟨rfl, hm'⟩ := hruns.plain (fun job _ => hplain job) hm
  refine ⟨?_, hm'⟩
  rw [← Pool.fresh_run]
  exact (fresh_map_run _ _).symm

theorem Check.fresh_report (c : Check) (s : Session) (w : Workbook) :
    (c.report s w).fresh = found (c.run s w).fresh := by
  refine (fresh_bind (c.run s w) _).trans ?_
  rcases (c.run s w).fresh with (_ | _) | _ <;> rfl

/-- A check comes to what it comes to without a memory. -/
theorem Check.Reports.fresh {I : Condition} {c : Check}
    {r : Except (List String) (List Diagnostic)} (h : c.Reports s w workers m r m')
    (hplain : ∀ item ∈ c.items s w, Plain I (Outcome.ofAttempt (Check.examine item)))
    (hm : m.Meets I) : r = (c.report s w).fresh ∧ m'.Meets I := by
  obtain ⟨r', hruns, rfl⟩ := h
  obtain ⟨rfl, hm'⟩ := hruns.plain hplain hm
  refine ⟨?_, hm'⟩
  rw [fresh_report, Check.run, Pool.fresh_run]

/-- Checks come to what they come to without a memory. -/
theorem Session.Complains.fresh {I : Condition} {cs : List Check}
    {r : Except (List String) (List Diagnostic)} (h : s.Complains w workers cs m r)
    (hplain : ∀ c ∈ cs, ∀ item ∈ c.items s w,
      Plain I (Outcome.ofAttempt (Check.examine item))) (hm : m.Meets I) :
    r = (s.complaintsOf w cs).run.fresh := by
  induction h with
  | nil => rfl
  | @fault c cs m m' faults h =>
    obtain ⟨hr, -⟩ := h.fresh (hplain c (List.mem_cons_self ..)) hm
    rw [complaintsOf, fresh_bind_run, ExceptT.run_mk, ← hr]
    rfl
  | @cons c cs m m' found r h _ ih =>
    obtain ⟨hr, hm'⟩ := h.fresh (hplain c (List.mem_cons_self ..)) hm
    have hrest := ih (fun c' hc' => hplain c' (List.mem_cons_of_mem c hc')) hm'
    rw [complaintsOf, fresh_bind_run, ExceptT.run_mk, ← hr]
    show _ = (s.complaintsOf w cs >>= fun rest => pure (found ++ rest)).run.fresh
    rw [fresh_bind_run, ← hrest]
    cases r <;> rfl

end Session

theorem Session.fresh_validate (s : Session) (w : Workbook) :
    (s.validate w >>= fun _ => pure s.compiled).run.fresh =
      s.verdict (s.complaints w).run.fresh := by
  have hadapt : ((s.complaints w).adapt RunFailure.aborted).run.fresh =
      (s.complaints w).run.fresh.mapError .aborted := fresh_map _ _
  rw [validate, bind_assoc, fresh_bind_run, hadapt]
  cases (s.complaints w).run.fresh with
  | error faults => rfl
  | ok found =>
    show ((if found.isEmpty then pure () else throw (.rejected found) : Stage Unit) >>=
      fun _ => pure s.compiled).run.fresh = s.verdict (.ok found)
    rw [verdict]
    split <;> rfl

/-- Without a memory, a compilation is one stage after the other. -/
theorem Workbook.fresh_compile :
    (w.compile settings).run.fresh = (do
      let s ← w.resolved settings
      let data ← (s.castAll w).run.fresh
      Session.verdict { s with data } (Session.complaints { s with data } w).run.fresh) := by
  rw [compile, fresh_bind_run, prepare, fresh_bind_run, bind_assoc]
  refine bind_congr fun s => ?_
  rw [fresh_bind_run, bind_assoc]
  refine bind_congr fun data => ?_
  exact Session.fresh_validate { s with data } w

/-! ### Work that needs no memory -/

variable {s : Session}

/-- The work on a job needs no memory, as long as no texts of columns are remembered. -/
theorem Session.plain_castJob (s : Session) (job : CastJob) :
    Plain (s.defs.computed fun _ _ _ => False) (s.castJob job) :=
  (asks_castJob job).plain fun r hr => by
    cases r with
    | cast type cell => exact Definitions.plain_cast type cell
    | _ => cases hr

theorem Check.plain_examine {c : Check} (hc : c ∈ all) :
    ∀ item ∈ c.items s w, Plain s.exact (Outcome.ofAttempt (examine item)) :=
  fun item hitem =>
    have hasks := Session.Asks.ofAttempt (a := examine item)
      (.bind_run (asks_items hc item hitem) fun _ => .done _)
    hasks.plain fun r _ => s.plain_respond r

/-- The checks of data that are cast come to what they come to without a memory, and so do the data
themselves. -/
theorem Session.Complains.fresh_of_casts {data : TableData} {m : Memory}
    {r : Except (List String) (List Diagnostic)}
    (h : ({ s with data } : Session).Complains w workers Check.all m r)
    (hcast : s.Casts w workers {} (.ok data) m) :
    (s.castAll w).run.fresh = .ok data ∧
      r = (({ s with data } : Session).complaints w).run.fresh := by
  obtain ⟨hdata, hm⟩ := hcast.fresh s.plain_castJob (Memory.meets_empty _)
  have hm : m.Meets ({ s with data } : Session).exact := hm.mono fun q a hq => by
    cases q with
    | realized table column => cases hq
    | _ => exact hq
  exact ⟨hdata.symm, h.fresh (fun c hc => Check.plain_examine (s := { s with data }) hc) hm⟩

/-- **A compilation comes to what it comes to without a memory**, whatever the number of workers and
the order of their turns, if several workers meet at most one table that cannot be resolved. -/
theorem Workbook.Runs.fresh {r : Except RunFailure Compiled} (h : w.Runs settings workers r)
    (hone : 1 < workers →
      (w.tables.entries.filter fun t => (w.resolveJob settings t).failed).length ≤ 1) :
    r = (w.compile settings).run.fresh := by
  rw [fresh_compile]
  cases h with
  | unresolved h =>
    rw [resolved_eq, ← h.eq hone]
    rfl
  | unsettled h hs =>
    rw [resolved_eq, ← h.eq hone]
    show _ = (w.entered settings _ >>= _)
    rw [hs]
    rfl
  | @uncast schemas s f m h hs hcast =>
    obtain ⟨hdata, -⟩ := hcast.fresh s.plain_castJob (Memory.meets_empty _)
    rw [resolved_eq, ← h.eq hone]
    show _ = (w.entered settings _ >>= _)
    rw [hs]
    show _ = ((s.castAll w).run.fresh >>= _)
    rw [← hdata]
    rfl
  | @checked schemas s data m found h hs hcast hcheck =>
    obtain ⟨hdata, hfound⟩ := hcheck.fresh_of_casts hcast
    rw [resolved_eq, ← h.eq hone]
    show _ = (w.entered settings _ >>= _)
    rw [hs]
    show _ = ((s.castAll w).run.fresh >>= _)
    rw [hdata, hfound]
    rfl

end TypedSheets
