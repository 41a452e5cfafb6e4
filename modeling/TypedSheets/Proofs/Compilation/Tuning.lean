import TypedSheets.Proofs.Compilation.Running
import TypedSheets.Proofs.Compilation.Targets
import TypedSheets.Proofs.Pool.Pieces

/-!
# Tuning

The number of workers and the sizes of work items are a matter of speed. Rows of a sheet that are
cast in several items come together again in the order of the sheet, with the complaints about them;
and so do the complaints about values of relation types, which are looked up in several items.

## Main definitions

* `Settings.untuned` — settings without the number of workers and the sizes of work items.

## Main results

* `Check.fresh_report_of_items` — what a check reports, from the complaints of its items.
* `Session.sameWork_castJobs` — the rows and constants of a workbook, cut into items of any size.
* `Session.fresh_complaintsOf_of_untuned` — the complaints of all checks.
* `Workbook.Runs.of_untuned` — a compilation hands out the same, or the same diagnostics.
-/

namespace TypedSheets

open Recall

/-- Settings without the number of workers and the sizes of work items. -/
def Settings.untuned (settings : Settings) : Settings :=
  { settings with workers := 0, chunkSize := 0, relationChunkSize := 0 }

/-- A session without the number of workers and the sizes of work items. -/
def Session.untuned (s : Session) : Session :=
  { s with settings := s.settings.untuned }

/-! ### Work on one item -/

/-- How an item ends when an attempt has come to something. -/
def Outcome.ofResult {ω : Type} : Except Halt (Outcome ω) → Outcome ω
  | .ok o => o
  | .error (.failure f) => .rejected [{ failure := f }]
  | .error .overflow => .panic Duration.Overflow.sum.message
  | .error .endless => .panic "the definitions lead to each other without end"

theorem Outcome.fresh_ofAttempt {ω : Type} (a : Attempt (Outcome ω)) :
    (Outcome.ofAttempt a).fresh = .ofResult a.run.fresh := by
  refine (fresh_bind a.run _).trans ?_
  rcases a.run.fresh with (_ | _ | _) | _ <;> rfl

/-- What stops is no failure: it is a fault of the work itself. -/
abbrev Unfailing {α : Type} (x : Except Halt α) : Prop :=
  x.ErrorsIn fun h => ∀ f, h ≠ .failure f

theorem Outcome.faulted_ofResult {ω : Type} {x : Except Halt (Outcome ω)} (hx : Unfailing x)
    {h : Halt} (herror : x = .error h) : (Outcome.ofResult x).faulted = true := by
  subst herror
  cases h with
  | failure f => exact absurd rfl (hx _ rfl f)
  | _ => rfl

theorem unfailing_result {α : Type} (a : Attempt α) : Unfailing a.result.run.fresh := by
  intro h hh
  replace hh := (fresh_bind a.run _).symm.trans hh
  rcases hr : a.run.fresh with (f | _ | _) | _ <;> rw [hr] at hh <;> cases hh <;> nofun

/-- The first of some attempts that are put together can be made on its own. -/
theorem sameWork_mapM {α β ω σ : Type} {add : σ → ω → σ} {f : α → Except Halt β}
    (hf : ∀ a, Unfailing (f a)) {pack : List β → Outcome ω}
    (hpack : ∀ b bs, Pool.SameWork add [pack (b :: bs)] [pack [b], pack bs]) (a : α) (l : List α) :
    Pool.SameWork add [.ofResult (pack <$> (a :: l).mapM f)]
      [.ofResult (pack <$> [a].mapM f), .ofResult (pack <$> l.mapM f)] := by
  have hfault {l : List α} {h : Halt} (hl : l.mapM f = .error h) :
      ¬ Pool.Calm [Outcome.ofResult (pack <$> l.mapM f)] := by
    intro hcalm
    have hresult : pack <$> l.mapM f = .error h := by rw [hl]; rfl
    have hfaulted := Outcome.faulted_ofResult (.map (.mapM hf l)) hresult
    rw [hcalm _ (List.mem_singleton_self _)] at hfaulted
    cases hfaulted
  cases ha : f a with
  | error h =>
    have hfirst (l : List α) : (a :: l).mapM f = .error h := by rw [List.mapM_cons, ha]; rfl
    exact .of_faults (hfault (hfirst l)) fun hcalm =>
      hfault (hfirst []) (Pool.calm_append.1 hcalm).1
  | ok b =>
    cases hl : l.mapM f with
    | error h =>
      have hall : (a :: l).mapM f = .error h := by rw [List.mapM_cons, ha, hl]; rfl
      refine .of_faults (hfault hall) fun hcalm => hfault hl fun o ho => ?_
      rw [List.mem_singleton.1 ho, hl]
      exact hcalm _ (by simp)
    | ok bs =>
      have hall : (a :: l).mapM f = .ok (b :: bs) := by rw [List.mapM_cons, ha, hl]; rfl
      have hone : [a].mapM f = .ok [b] := by rw [List.mapM_cons, ha]; rfl
      rw [hall, hone]
      exact hpack b bs

/-! ### What a check reports -/

namespace Check

variable {s : Session} {w : Workbook}

/-- An item that comes to complaints is rejected with these, if there are any. -/
theorem fresh_examine {item : Attempt (List Diagnostic)} {found : List Diagnostic}
    (h : item.run.fresh = .ok found) :
    (Outcome.ofAttempt (examine item)).fresh = Pool.verdictOf found [] := by
  rw [Outcome.fresh_ofAttempt, examine, fresh_bind_run, h]
  rfl

/-- A check whose items come to complaints reports these in order. -/
theorem fresh_report_of_items {c : Check} {founds : List (List Diagnostic)}
    (h : List.Forall₂ (fun item found => item.run.fresh = .ok found) (c.items s w) founds) :
    (c.report s w).fresh = .ok founds.flatten := by
  have houtcomes : ((c.items s w).map fun item => (Outcome.ofAttempt (examine item)).fresh) =
      founds.map fun found => Pool.verdictOf found [] :=
    (h.imp fun item found hfound => fresh_examine hfound).map_eq
  have hcalm : ∀ o ∈ founds.map fun found => (Pool.verdictOf found [] : Outcome Unit),
      o.faulted = false := by
    intro o ho
    obtain ⟨found, -, rfl⟩ := List.mem_map.1 ho
    exact Pool.calm_verdictOf ..
  have hcomplaints : (founds.map fun found => (Pool.verdictOf found [] : Outcome Unit)).flatMap
      Outcome.diagnostics = founds.flatten := by
    rw [List.flatMap_map]
    simp only [Pool.diagnostics_verdictOf]
    exact List.flatMap_id'
  rw [fresh_report, run, Pool.fresh_run, houtcomes, Pool.gather, Pool.faultsFrom_eq_nil.2 hcalm,
    hcomplaints]
  cases founds.flatten <;> rfl

/-- Values of relation types are looked up one after the other. -/
theorem fresh_usesFaults (s : Session) (uses : List RelationUse) :
    (usesFaults s uses).run.fresh = .ok (uses.flatMap fun u => (useFaults s u).fresh) := by
  refine (fresh_map Except.ok _).trans ?_
  rw [fresh_bind, fresh_mapM, fresh_pure, List.flatMap_def]

end Check

namespace Session

variable {s : Session}

/-! ### Rows -/

theorem unfailing_castRow (schema : Schema) (sheet : Sheet) (bold : Bool) (row : Nat) :
    Unfailing (s.castRow schema sheet bold row).run.fresh := by
  rw [castRow, fresh_bind_run, fresh_mapM_run]
  refine .bind (.mapM (fun c => ?_) _) fun results => .ok _
  unfold castColumn
  split
  · exact .ok _
  · rw [fresh_bind_run]
    refine .bind (unfailing_result _) fun r => ?_
    split <;> exact .ok _

/-- What the rows of a chunk come to, once all of them are cast. -/
def chunkOutcome (schema : Schema) (sheet : Sheet) (results : List (List Diagnostic × CastRow)) :
    Outcome CastOutput :=
  Pool.verdictOf (results.flatMap Prod.fst)
    [.rows { table := schema.name, location := sheet.location, rows := results.map Prod.snd }]

theorem fresh_castRows {schema : Schema} {sheet : Sheet} {bold : Bool}
    (htarget : s.target? sheet bold = some schema) (rows : List Nat) :
    (s.castJob (.rows sheet bold rows)).fresh = .ofResult
      (chunkOutcome schema sheet <$>
        rows.mapM fun row => (s.castRow schema sheet bold row).run.fresh) := by
  rw [castJob, Outcome.fresh_ofAttempt, castRows, htarget]
  show Outcome.ofResult (_ >>= _ : Attempt (Outcome CastOutput)).run.fresh = _
  rw [fresh_bind_run, fresh_mapM_run, ← bind_pure_comp]
  congr 2
  funext results
  unfold chunkOutcome Pool.verdictOf
  dsimp only
  split <;> rfl

/-- Rows added to a sheet one chunk after the other are added to it together. -/
theorem push_push (d : TableData) (chunk : CastSheet) (rows : List CastRow) :
    (d.push chunk).push { chunk with rows } =
      d.push { chunk with rows := chunk.rows ++ rows } := by
  have hsheets (sheets : List CastSheet) :
      TableData.addChunk { chunk with rows } (TableData.addChunk chunk sheets) =
        TableData.addChunk { chunk with rows := chunk.rows ++ rows } sheets := by
    induction sheets with
    | nil => simp [TableData.addChunk]
    | cons sheet sheets ih =>
      by_cases h : sheet.location = chunk.location
      · simp [TableData.addChunk, h]
      · simp [TableData.addChunk, h, ih]
  simp only [TableData.push, Keyed.update_update, hsheets]

/-- The first row of a chunk can be cast on its own. -/
theorem sameWork_castRows {sheet : Sheet} {bold : Bool}
    (htarget : (s.target? sheet bold).isSome = true) (row : Nat) (rows : List Nat) :
    Pool.SameWork TableData.addOutput [(s.castJob (.rows sheet bold (row :: rows))).fresh]
      [(s.castJob (.rows sheet bold [row])).fresh, (s.castJob (.rows sheet bold rows)).fresh] := by
  obtain ⟨schema, htarget⟩ := Option.isSome_iff_exists.1 htarget
  rw [fresh_castRows htarget, fresh_castRows htarget, fresh_castRows htarget]
  refine sameWork_mapM (unfailing_castRow schema sheet bold) (fun b bs => ?_) row rows
  unfold chunkOutcome
  rw [List.flatMap_cons, List.flatMap_singleton]
  refine Pool.sameWork_verdictOf fun d => ?_
  exact (push_push d { table := schema.name, location := sheet.location, rows := [b.2] }
    (bs.map Prod.snd)).symm

/-- Casting a workbook comes to the same with items of any size. -/
theorem sameWork_castJobs {w : Workbook} {settings : Settings} (h : w.resolved settings = .ok s)
    (size size' : Nat) :
    Pool.SameWork TableData.addOutput ((castJobs w size).map fun job => (s.castJob job).fresh)
      ((castJobs w size').map fun job => (s.castJob job).fresh) := by
  unfold castJobs
  rw [List.map_append, List.map_append]
  refine Pool.SameWork.append ?_ (.refl _)
  rw [List.map_flatMap, List.map_flatMap]
  refine .flatMap fun sheets hsheets => ?_
  obtain ⟨table, htable, rfl⟩ := List.mem_map.1 hsheets
  rw [List.map_flatMap, List.map_flatMap]
  refine .flatMap fun sheet hsheet => ?_
  unfold sheetJobs
  rw [List.map_flatMap, List.map_flatMap]
  refine .flatMap fun bold _ => ?_
  rw [List.map_map, List.map_map]
  by_cases hrows : sheet.rowsOf bold = []
  · rw [hrows, chunksOf, chunksOf]
    exact .refl _
  · have htarget := Workbook.isSome_target? h htable (mem_sortBy.1 hsheet)
      (Sheet.tier_ne_nil_of_rowsOf hrows)
    exact Pool.sameWork_chunks (sameWork_castRows htarget) size size' _

theorem castJob_untuned (s : Session) : s.untuned.castJob = s.castJob := rfl

theorem fresh_castAll (s : Session) (w : Workbook) : (s.castAll w).run.fresh =
    ((Pool.gather "cast" ((castJobs w s.settings.rowsPerJob).map
      fun job => (s.castJob job).fresh)).map (List.foldl TableData.addOutput {})).map
        TableData.finish := by
  rw [castAll, fresh_map_run, ExceptT.run_mk, Pool.fresh_run]
  cases Pool.gather .. <;> rfl

/-- What casting comes to, unless it is aborted, does not depend on the sizes of work items. -/
theorem fresh_castAll_of_untuned {w : Workbook} {settings : Settings} {s' : Session}
    (h : w.resolved settings = .ok s) (hs : s'.untuned = s.untuned)
    (hcalm : ∀ faults, (s.castAll w).run.fresh ≠ .error (.aborted faults)) :
    (s'.castAll w).run.fresh = (s.castAll w).run.fresh := by
  have hjob : s'.castJob = s.castJob := by
    rw [← castJob_untuned s', hs, castJob_untuned]
  rw [fresh_castAll] at hcalm
  rw [fresh_castAll, fresh_castAll, hjob]
  refine congrArg (Except.map TableData.finish) (Eq.symm ?_)
  have hcalm : Pool.Calm
      ((castJobs w s.settings.rowsPerJob).map fun job => (s.castJob job).fresh) :=
    Pool.calm_of_gather fun faults hfaults => hcalm faults (by rw [hfaults]; rfl)
  exact (sameWork_castJobs h _ _).gather_eq hcalm "cast" {}

/-! ### Values of relation types -/

/-- How some values of relation types are looked up. -/
def usesOutcome (s : Session) (uses : List RelationUse) : Outcome Unit :=
  Pool.verdictOf (uses.flatMap fun u => (Check.useFaults s u).fresh) []

theorem fresh_relationValues (s : Session) (w : Workbook) :
    ((Check.relationValues.items s w).map fun item =>
      (Outcome.ofAttempt (Check.examine item)).fresh) =
        (chunksOf s.settings.usesPerJob s.relationUses).map (usesOutcome s) := by
  exact List.map_map.trans (List.map_congr_left fun uses _ =>
    Check.fresh_examine (Check.fresh_usesFaults s uses))

theorem relationUses_untuned (s : Session) : s.untuned.relationUses = s.relationUses := rfl

theorem usesOutcome_untuned (s : Session) : s.untuned.usesOutcome = s.usesOutcome := rfl

/-- The complaints about values of relation types do not depend on the sizes of work items. -/
theorem found_relationValues_of_untuned (w : Workbook) {s' : Session}
    (hs : s'.untuned = s.untuned) (stage : String) :
    Check.found (Pool.gather stage ((Check.relationValues.items s' w).map fun item =>
      (Outcome.ofAttempt (Check.examine item)).fresh)) =
    Check.found (Pool.gather stage ((Check.relationValues.items s w).map fun item =>
      (Outcome.ofAttempt (Check.examine item)).fresh)) := by
  have huses : s'.relationUses = s.relationUses := by
    rw [← relationUses_untuned s', hs, relationUses_untuned]
  have houtcome : s'.usesOutcome = s.usesOutcome := by
    rw [← usesOutcome_untuned s', hs, usesOutcome_untuned]
  rw [fresh_relationValues, fresh_relationValues, huses, houtcome]
  have hsame : Pool.SameWork (fun (_ : Unit) _ => ())
      ((chunksOf s'.settings.usesPerJob s.relationUses).map s.usesOutcome)
      ((chunksOf s.settings.usesPerJob s.relationUses).map s.usesOutcome) := by
    refine Pool.sameWork_chunks (fun u uses => ?_) _ _ _
    unfold usesOutcome
    rw [List.flatMap_cons, List.flatMap_singleton]
    exact Pool.sameWork_verdictOf fun _ => rfl
  have hcalm : Pool.Calm
      ((chunksOf s'.settings.usesPerJob s.relationUses).map s.usesOutcome) := by
    intro o ho
    obtain ⟨uses, -, rfl⟩ := List.mem_map.1 ho
    exact Pool.calm_verdictOf ..
  have hfound (r : Except RunFailure (List Unit)) :
      Check.found r =
        Check.found ((r.map (List.foldl (fun (_ : Unit) _ => ()) ())).map fun _ => []) := by
    rcases r with (_ | _) | _ <;> rfl
  rw [hfound, hsame.gather_eq hcalm, ← hfound]

theorem parametersFaults_untuned (s : Session) (p : Prototype) (first : Option String)
    (qs : List Parameter) :
    Check.parametersFaults s.untuned p first qs = Check.parametersFaults s p first qs := by
  induction qs generalizing first with
  | nil => rfl
  | cons q qs ih =>
    have hhere : Check.parameterFaults s.untuned p first q =
        Check.parameterFaults s p first q := rfl
    rw [Check.parametersFaults, Check.parametersFaults, hhere, ih]

/-- Only the items of values of relation types depend on the settings of the sizes of work. -/
theorem items_untuned {c : Check} (hc : c ∈ Check.all) (hne : c ≠ Check.relationValues)
    (s : Session) (w : Workbook) : c.items s.untuned w = c.items s w := by
  simp only [Check.all, List.mem_cons, List.not_mem_nil, or_false] at hc
  rcases hc with rfl | rfl | rfl | rfl | rfl | rfl | rfl
  case inr.inr.inr.inl => exact List.map_congr_left fun p _ => parametersFaults_untuned s p none _
  case inr.inr.inr.inr.inr.inl => exact absurd rfl hne
  all_goals rfl

/-- The complaints of a check do not depend on the sizes of work items. -/
theorem fresh_report_of_untuned {c : Check} (hc : c ∈ Check.all) (w : Workbook) {s' : Session}
    (hs : s'.untuned = s.untuned) : (c.report s' w).fresh = (c.report s w).fresh := by
  rw [Check.fresh_report, Check.fresh_report, Check.run, Check.run, Pool.fresh_run, Pool.fresh_run]
  by_cases hrelation : c = Check.relationValues
  · subst hrelation
    exact found_relationValues_of_untuned w hs _
  · rw [← items_untuned hc hrelation s', hs, items_untuned hc hrelation s]

/-- The complaints of checks do not depend on the sizes of work items. -/
theorem fresh_complaintsOf_of_untuned {cs : List Check} (hcs : ∀ c ∈ cs, c ∈ Check.all)
    (w : Workbook) {s' : Session} (hs : s'.untuned = s.untuned) :
    (s'.complaintsOf w cs).run.fresh = (s.complaintsOf w cs).run.fresh := by
  induction cs with
  | nil => rfl
  | cons c cs ih =>
    rw [List.forall_mem_cons] at hcs
    have hreport := fresh_report_of_untuned hcs.1 w hs
    rw [complaintsOf, complaintsOf, fresh_bind_run, fresh_bind_run, ExceptT.run_mk, ExceptT.run_mk,
      hreport]
    refine bind_congr fun found => ?_
    rw [fresh_bind_run, fresh_bind_run, ih hcs.2]

end Session

/-! ### Whole compilations -/

namespace Workbook

variable {w : Workbook} {settings settings' : Settings}

theorem resolveJob_untuned (w : Workbook) (settings : Settings) :
    w.resolveJob settings.untuned = w.resolveJob settings := rfl

theorem ofWorkbook_untuned (w : Workbook) (settings : Settings) :
    Definitions.ofWorkbook settings.untuned w = Definitions.ofWorkbook settings w := rfl

/-- Tables are resolved alike; the session has other settings. -/
theorem resolved_of_untuned (h : settings'.untuned = settings.untuned) :
    w.resolved settings' = (w.resolved settings).map fun s => { s with settings := settings' } := by
  have hjob : w.resolveJob settings' = w.resolveJob settings := by
    rw [← resolveJob_untuned w settings', h, resolveJob_untuned]
  have hdefs : Definitions.ofWorkbook settings' w = Definitions.ofWorkbook settings w := by
    rw [← ofWorkbook_untuned w settings', h, ofWorkbook_untuned]
  have hresolve : w.resolve settings' = w.resolve settings := by
    rw [resolve, resolve, hjob]
  rw [resolved_eq, resolved_eq, hresolve]
  cases w.resolve settings with
  | error f => rfl
  | ok schemas =>
    show w.entered settings' schemas = (w.entered settings schemas).map _
    simp only [entered, foldl_withSchema, Session.ofWorkbook, Session.inheritanceFaults,
      Session.schemas, hdefs]
    split <;> rfl

/-- Without a memory, a compilation that is not aborted comes to the same under settings that differ
in the tuning only. -/
theorem fresh_compile_of_untuned (h : settings'.untuned = settings.untuned)
    (hcalm : ∀ faults, (w.compile settings).run.fresh ≠ .error (.aborted faults)) :
    (w.compile settings').run.fresh = (w.compile settings).run.fresh := by
  rw [fresh_compile] at hcalm
  rw [fresh_compile, fresh_compile, resolved_of_untuned h]
  cases hs : w.resolved settings with
  | error f => rfl
  | ok s =>
    have htuned : ({ s with settings := settings' } : Session).untuned = s.untuned := by
      obtain ⟨schemas, -, rfl⟩ := resolved_ok hs
      rw [foldl_withSchema]
      exact congrArg (fun untuned => ({ settings := untuned, defs := _ } : Session)) h
    rw [hs] at hcalm
    have hdata := Session.fresh_castAll_of_untuned hs htuned fun faults hfaults =>
      hcalm faults (by
        show (s.castAll w).run.fresh >>= _ = _
        rw [hfaults]
        rfl)
    show (({ s with settings := settings' } : Session).castAll w).run.fresh >>= _ =
      (s.castAll w).run.fresh >>= _
    rw [hdata]
    refine bind_congr fun data => ?_
    have htuned : ({ s with settings := settings', data } : Session).untuned =
        ({ s with data } : Session).untuned := congrArg (fun s => { s with data }) htuned
    have hall : ∀ c ∈ Check.all, c ∈ Check.all := fun _ hc => hc
    have hcomplaints := Session.fresh_complaintsOf_of_untuned hall w htuned
    show Session.verdict _ (Session.complaintsOf _ w Check.all).run.fresh = _
    rw [hcomplaints]
    rfl

/-- **Tuning does not change what a compilation comes to.** Under settings that differ in the number
of workers and in the sizes of work items only, and whatever the order in which the workers take
their turns, a compilation that no panic aborts hands out the same, or it is rejected with the same
diagnostics in the same order; where several workers resolve the tables, at most one of these may
fail to be resolved. -/
theorem Runs.of_untuned {workers workers' : Nat} {r r' : Except RunFailure Compiled}
    (h : w.Runs settings workers r) (h' : w.Runs settings' workers' r')
    (htuning : settings'.untuned = settings.untuned)
    (hcalm : ∀ faults, r ≠ .error (.aborted faults))
    (hone : 1 < workers ∨ 1 < workers' →
      (w.tables.entries.filter fun t => (w.resolveJob settings t).failed).length ≤ 1) :
    (∃ c, r = .ok c ∧ r' = .ok c) ∨
      ∃ diagnostics, r = .error (.rejected diagnostics) ∧ r' = .error (.rejected diagnostics) := by
  have hjob : w.resolveJob settings' = w.resolveJob settings := by
    rw [← resolveJob_untuned w settings', htuning, resolveJob_untuned]
  have hone' : 1 < workers' →
      (w.tables.entries.filter fun t => (w.resolveJob settings' t).failed).length ≤ 1 := by
    rw [hjob]
    exact fun hn => hone (.inr hn)
  have hfresh := h.fresh fun hn => hone (.inl hn)
  have hsame : r' = r := by
    rw [h'.fresh hone', hfresh]
    exact fresh_compile_of_untuned htuning fun faults => hfresh ▸ hcalm faults
  subst hsame
  match r', hcalm with
  | .ok c, _ => exact .inl ⟨c, rfl, rfl⟩
  | .error (.rejected diagnostics), _ => exact .inr ⟨diagnostics, rfl, rfl⟩
  | .error (.aborted faults), hcalm => exact absurd rfl (hcalm faults)

/-- A menu of two courses: the dishes stand below the course that they belong to. -/
def menu : Workbook where
  sheets := [
    { location := ⟨"menu.xlsx", "Menu", none⟩, table := "Dish", based := none, group := none,
      columns := [
        ⟨"Course", "*string", .common, true, .ofList [(1, .text "soups"), (4, .text "pies")]⟩,
        ⟨"Name", "*string", .common, false,
          .ofList [(2, .text "leek"), (3, .text "pea"), (5, .text "apple")]⟩,
        ⟨"Price", "int", .common, false,
          .ofList [(2, .text "4"), (3, .text "5"), (5, .text "3")]⟩] }]

/-- The menu compiles to the same five rows with one worker and with three, who cast and check row
by row. -/
theorem menu_untuned : ∃ c, c.data.rowCount = 5 ∧ menu.Runs {} 1 (.ok c) ∧
    menu.Runs { workers := 3, chunkSize := 1, relationChunkSize := 1 } 3 (.ok c) := by
  obtain ⟨r, h⟩ := menu.exists_runs {} 1
  obtain ⟨r', h'⟩ := menu.exists_runs { workers := 3, chunkSize := 1, relationChunkSize := 1 } 3
  have hr := h.fresh fun hn => absurd hn (by decide)
  have hrows : (menu.compile {}).run.fresh.toOption.any (·.data.rowCount == 5) = true := by
    decide +kernel
  have hcalm (faults : List String) : r ≠ .error (.aborted faults) := by
    rintro rfl
    rw [← hr] at hrows
    cases hrows
  rcases h.of_untuned h' rfl hcalm fun _ => by decide +kernel with
    ⟨c, rfl, rfl⟩ | ⟨diagnostics, rfl, -⟩
  · rw [← hr] at hrows
    exact ⟨c, eq_of_beq hrows, h, h'⟩
  · rw [← hr] at hrows
    cases hrows

end Workbook

end TypedSheets
