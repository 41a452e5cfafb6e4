import TypedSheets.Proofs.Pool.Interleaving
import TypedSheets.Proofs.Session.Asking

/-!
# Results of runs

What a run of the pool can come to. With one worker it comes to the run from item to item, with the
same memory. If the work on the items needs no memory, a run that does not halt comes to what the
items come to by themselves, whatever the number of workers; and so does one that halts, if no two
items fail.

## Main definitions

* `Pool.Runs` — a run with some workers can come to a result and leave a memory.
* `Pool.forecast` — what a worker on its own will come to.

## Main results

* `Pool.exists_runs`, `Pool.runs_one` — every run comes to something, and with one worker to one
  thing only.
* `Pool.Runs.plain`, `Pool.Runs.single_failure` — what all other runs come to.
* `Pool.Runs.not_aborted`, `Pool.Runs.of_ok` — what runs come to that may halt.
-/

namespace TypedSheets

open Recall

variable {ι ω : Type} {I : Condition}

/-- A call that leaves an outcome; it has pushed nothing if it has failed. -/
def Worked.ofOutcome : Outcome ω → Worked ω
  | .success outputs => ⟨outputs, .finished⟩
  | .rejected diagnostics => ⟨[], .rejected diagnostics⟩
  | .fault text => ⟨[], .fault text⟩
  | .panic text => ⟨[], .panic text⟩

@[simp] theorem Worked.outcome_ofOutcome (o : Outcome ω) : (ofOutcome o).outcome = o := by
  cases o <;> rfl

namespace Pool

/-- With some workers, a run can come to a result and leave a memory. -/
def Runs (stage : String) (halting : Bool) (workers : Nat) (work : ι → Recall (Outcome ω))
    (items : List ι) (m : Memory) (r : Except RunFailure (List ω)) (m' : Memory) : Prop :=
  ∃ s, Leads (fun i => Worked.ofOutcome <$> work i) halting (start ω workers items m) s ∧
    s.Finished ∧ s.result stage = r ∧ s.shared.memory = m'

variable {stage : String} {halting : Bool} {workers : Nat} {items : List ι} {m m' : Memory}
  {r : Except RunFailure (List ω)}

/-- Every run comes to something. -/
theorem exists_runs (stage : String) (halting : Bool) (workers : Nat)
    (work : ι → Recall (Outcome ω)) (items : List ι) (m : Memory) :
    ∃ r m', Runs stage halting workers work items m r m' := by
  obtain ⟨s, hleads, hfinished⟩ :
      ∃ s, Leads (fun i => Worked.ofOutcome <$> work i) halting (start ω workers items m) s ∧
        s.Finished := exists_finished _
  exact ⟨_, _, s, hleads, hfinished, rfl, rfl⟩

/-! ### One worker -/

section Solo

variable (work : ι → Recall (Worked ω)) (halting : Bool)

/-- The outcomes of the items in a queue, worked on one after the other, and the memory that is
left. -/
def workThrough : List (Nat × ι) → Memory → List (Nat × Outcome ω) × Memory
  | [], m => ([], m)
  | (k, i) :: queue, m =>
    let c := (work i).run m
    let o := c.1.outcome
    if halting && o.failed then ([(k, o)], c.2)
    else ((k, o) :: (workThrough queue c.2).1, (workThrough queue c.2).2)

/-- What a worker on its own will have kept after the items in the queue, and the memory that will
be left. -/
def ahead (kept : List (Nat × Outcome ω)) (halted : Bool) (queue : List (Nat × ι)) (m : Memory) :
    List (Nat × Outcome ω) × Memory :=
  if halted then (kept, m)
  else (kept ++ (workThrough work halting queue m).1, (workThrough work halting queue m).2)

/-- What a worker on its own will have kept when it leaves, and the memory that will be left. -/
def forecast (s : Shared ι) (w : Worker ι ω) : List (Nat × Outcome ω) × Memory :=
  match w.hand with
  | .empty => ahead work halting w.finished s.halted s.queue s.memory
  | .taken k i => ahead work halting w.finished s.halted ((k, i) :: s.queue) s.memory
  | .working k rest =>
    let c := rest.run s.memory
    let o := c.1.outcome
    ahead work halting (w.finished ++ [(k, o)]) (s.halted || halting && o.failed) s.queue c.2
  | .gone => (w.finished, s.memory)

variable {work halting}

/-- A turn does not change what a worker on its own will come to. -/
theorem Turn.forecast_eq {s s' : Shared ι} {w w' : Worker ι ω}
    (h : Turn work halting s w s' w') :
    forecast work halting s' w' = forecast work halting s w := by
  cases h with
  | take => rfl
  | leave => simp [forecast, ahead, workThrough]
  | quit => rfl
  | @begin k i q m l =>
    simp only [forecast, ahead, workThrough, Bool.false_or, Bool.false_eq_true, if_false]
    split <;> simp
  | ask => rfl
  | note => rfl
  | finish => rfl

/-- A worker stays on its own, and what it will come to stays the same. -/
theorem forecast_of_leads {s : Shared ι} {w : Worker ι ω} {t : State ι ω}
    (h : Leads work halting ⟨s, [w]⟩ t) :
    ∃ s' w', t = ⟨s', [w']⟩ ∧ forecast work halting s' w' = forecast work halting s w := by
  induction h with
  | refl => exact ⟨s, w, rfl, rfl⟩
  | tail _ hstep ih =>
    obtain ⟨s', w', rfl, hforecast⟩ := ih
    generalize hworkers : [w'] = workers at hstep
    cases hstep with
    | @turn before after _ s'' w₀ w'' hturn =>
      obtain ⟨rfl, rfl, rfl⟩ : before = [] ∧ w' = w₀ ∧ after = [] := by
        cases before <;> simp_all
      exact ⟨s'', w'', rfl, hturn.forecast_eq.trans hforecast⟩

variable (work halting) in
/-- To work through a queue is to run from item to item. -/
theorem workThrough_zipIdx (position : Nat) (items : List ι) (m : Memory) :
    workThrough work halting ((items.zipIdx position).map Prod.swap) m =
      let all := (outcomes halting (fun i => Worked.outcome <$> work i) items).run m
      ((all.1.zipIdx position).map Prod.swap, all.2) := by
  induction items generalizing position m with
  | nil => rfl
  | cons i items ih =>
    simp only [List.zipIdx_cons, List.map_cons, Prod.swap_prod_mk, workThrough, outcomes, run_bind,
      run_map]
    split
    · rfl
    · simp only [run_bind, ih]
      rfl

end Solo

/-- Outcomes that have their positions in a list are sorted as they are. -/
theorem sortBy_zipIdx (os : List (Outcome ω)) :
    sortBy (fun a b : Nat × Outcome ω => decide (a.1 ≤ b.1)) (os.zipIdx.map Prod.swap) =
      os.zipIdx.map Prod.swap := by
  refine sortBy_positions ?_ fun p hp => ?_
  · rw [List.map_map]
    exact (List.zipIdx_map_snd 0 os) ▸ List.range_eq_range' ▸ .refl _
  · obtain ⟨⟨o, k⟩, hmem, rfl⟩ := List.mem_map.1 hp
    exact List.mk_mem_zipIdx_iff_getElem?.1 hmem

/-- One worker keeps the outcomes of a run from item to item, and leaves its memory. -/
theorem outcomes_of_one {work : ι → Recall (Worked ω)} (hone : workers ≤ 1) {s : State ι ω}
    (h : Leads work halting (start ω workers items m) s) (hfinished : s.Finished) :
    s.outcomes = ((outcomes halting (fun i => Worked.outcome <$> work i) items).run m).1.zipIdx.map
        Prod.swap ∧
      s.shared.memory = ((outcomes halting (fun i => Worked.outcome <$> work i) items).run m).2 := by
  have hmax : max 1 workers = 1 := Nat.max_eq_left hone
  cases items with
  | nil =>
    -- without items there are no workers
    have hstart : start ω workers ([] : List ι) m = ⟨⟨[], false, m⟩, []⟩ := by simp [start]
    rw [hstart] at h
    obtain rfl | ⟨t, hstep, -⟩ := Relation.ReflTransGen.cases_head h
    · exact ⟨rfl, rfl⟩
    · generalize hnone : (⟨⟨[], false, m⟩, []⟩ : State ι ω) = t' at hstep
      cases hstep with
      | @turn before after => cases before <;> cases hnone
  | cons i items =>
    have hstart : start ω workers (i :: items) m =
        ⟨⟨(i :: items).zipIdx.map Prod.swap, false, m⟩, [⟨.empty, []⟩]⟩ := by
      simp [start, hmax]
    obtain ⟨s', w', rfl, hforecast⟩ := forecast_of_leads (hstart ▸ h)
    have hgone : w'.hand = .gone := hfinished w' (List.mem_singleton.2 rfl)
    have hkept := workThrough_zipIdx work halting 0 (i :: items) m
    simp only [forecast, hgone, ahead, Bool.false_eq_true, if_false, List.nil_append] at hforecast
    rw [hkept] at hforecast
    simp only [Prod.mk.injEq] at hforecast
    rw [State.outcomes]
    simp only [List.flatMap_cons, List.flatMap_nil, List.append_nil, hforecast.1, hforecast.2,
      sortBy_zipIdx, and_self]

/-- With one worker, a run comes to the run from item to item. -/
theorem Runs.one {work : ι → Recall (Outcome ω)} (h : Runs stage halting 1 work items m r m') :
    (run stage halting work items).run m = (r, m') := by
  obtain ⟨s, hleads, hfinished, rfl, rfl⟩ := h
  have houtcome : (fun i => Worked.outcome <$> Worked.ofOutcome <$> work i) = work := by
    funext i
    rw [← comp_map]
    exact (funext Worked.outcome_ofOutcome : Worked.outcome ∘ Worked.ofOutcome = _) ▸ id_map _
  obtain ⟨houtcomes, hmemory⟩ := outcomes_of_one (Nat.le_refl 1) hleads hfinished
  rw [houtcome] at houtcomes hmemory
  rw [run, run_map, State.result, houtcomes, hmemory, collect_zipIdx]

/-- With one worker, a run comes to the run from item to item and to nothing else. -/
theorem runs_one {work : ι → Recall (Outcome ω)} :
    Runs stage halting 1 work items m r m' ↔ (run stage halting work items).run m = (r, m') := by
  refine ⟨Runs.one, fun h => ?_⟩
  obtain ⟨r', m'', hruns⟩ := exists_runs stage halting 1 work items m
  cases h.symm.trans hruns.one
  exact hruns

/-! ### A pool that has halted -/

section Halted

variable {f : ι → Outcome ω} {s : State ι ω}

/-- No item has two outcomes that are kept in a finished run. -/
theorem distinct_of_whole (hwhole : Whole items.length s) (hfinished : s.Finished) :
    s.outcomes.Pairwise fun p q => p.1 ≠ q.1 := by
  obtain ⟨l, hl, hsub⟩ := hwhole.kept
  have hnodup : s.positions.Nodup := hl.nodup_iff.1 (List.nodup_range.sublist hsub)
  rw [State.positions, hfinished.positions] at hnodup
  have hperm := sortBy_perm (fun a b : Nat × Outcome ω => decide (a.1 ≤ b.1))
    (s.workers.flatMap Worker.finished)
  have hkeys := (hperm.map Prod.fst).nodup_iff.2 (List.nodup_append.1 hnodup).2.1
  exact List.pairwise_map.1 hkeys

/-- The outcomes that are kept in a finished run are those of items, of each item once. -/
theorem outcomes_of_whole (hshown : Shown I f items s) (hwhole : Whole items.length s)
    (hfinished : s.Finished) :
    (∀ p ∈ s.outcomes, ∃ i, items[p.1]? = some i ∧ p.2 = f i) ∧
      s.outcomes.Pairwise fun p q => p.1 ≠ q.1 := by
  refine ⟨fun p hp => ?_, distinct_of_whole hwhole hfinished⟩
  obtain ⟨w, hw, hp⟩ := List.mem_flatMap.1 (mem_sortBy.1 hp)
  exact (hshown.workers w hw).finished p hp

/-- Elements at different positions are related in one order or the other. -/
theorem pairwise_getElem? {R : ι → ι → Prop} (h : items.Pairwise R) {k k' : Nat} {i i' : ι}
    (hi : items[k]? = some i) (hi' : items[k']? = some i') (hne : k ≠ k') : R i i' ∨ R i' i := by
  obtain ⟨hk, rfl⟩ := List.getElem?_eq_some_iff.1 hi
  obtain ⟨hk', rfl⟩ := List.getElem?_eq_some_iff.1 hi'
  rcases Nat.lt_or_gt_of_ne hne with hlt | hlt
  · exact .inl (List.pairwise_iff_getElem.1 h k k' hk hk' hlt)
  · exact .inr (List.pairwise_iff_getElem.1 h k' k hk' hk hlt)

/-- If the work on no item is a fault, a finished run keeps no fault. -/
theorem faults_of_whole (stage : String) (hshown : Shown I f items s)
    (hwhole : Whole items.length s) (hfinished : s.Finished)
    (hno : ∀ i ∈ items, (f i).faulted = false) :
    s.outcomes.flatMap (fun o => o.2.faults stage o.1) = [] := by
  obtain ⟨hkept, -⟩ := outcomes_of_whole hshown hwhole hfinished
  refine List.flatMap_eq_nil_iff.2 fun p hp => faults_eq_nil.2 ?_
  obtain ⟨i, hi, hpi⟩ := hkept p hp
  rw [hpi]
  exact hno i (List.mem_of_getElem? hi)

/-- If no two items fail, a pool that has halted comes to what all its items come to. -/
theorem result_of_halted (stage : String) (hshown : Shown I f items s)
    (hwhole : Whole items.length s) (hhalted : s.shared.halted = true) (hfinished : s.Finished)
    (hno : ∀ i ∈ items, (f i).faulted = false) (hfull : ∀ i ∈ items, f i ≠ .rejected [])
    (hone : (items.filter fun i => (f i).failed).length ≤ 1) :
    s.result stage = gather stage (items.map f) := by
  obtain ⟨hkept, hdistinct⟩ := outcomes_of_whole hshown hwhole hfinished
  have halone := List.pairwise_of_length_filter hone
  have hnone {i : ι} (h : (f i).failed = false) : (f i).diagnostics = [] := by
    by_contra hds
    cases (failed_of_diagnostics hds).symm.trans h
  -- the failure that has halted the pool
  obtain ⟨w, hw, p, hp, hfailed⟩ := hwhole.halted hhalted
  have hp : p ∈ s.outcomes := mem_sortBy.2 (List.mem_flatMap.2 ⟨w, hw, hp⟩)
  obtain ⟨i, hi, hpi⟩ := hkept p hp
  have hmem := List.mem_of_getElem? hi
  have hds := diagnostics_ne_nil (hno i hmem) (hfull i hmem) (hpi ▸ hfailed)
  have hitems : items.flatMap (fun i => (f i).diagnostics) = (f i).diagnostics :=
    List.flatMap_eq_of_alone hmem (halone.imp fun h => h.imp hnone hnone) hds
  have houtcomes : s.outcomes.flatMap (fun o => o.2.diagnostics) = p.2.diagnostics := by
    refine List.flatMap_eq_of_alone hp (hdistinct.imp_of_mem fun {q q'} hq hq' hne => ?_)
      (hpi ▸ hds)
    obtain ⟨j, hj, hqj⟩ := hkept q hq
    obtain ⟨j', hj', hqj'⟩ := hkept q' hq'
    rw [hqj, hqj']
    rcases pairwise_getElem? halone hj hj' hne with h | h
    · exact h.imp hnone hnone
    · exact h.symm.imp hnone hnone
  have hfaults := faults_of_whole stage hshown hwhole hfinished hno
  have hne : (f i).diagnostics.isEmpty = false := List.isEmpty_eq_false_iff.2 hds
  rw [gather_of_rejected (List.forall_mem_map.2 hno) ⟨f i, List.mem_map_of_mem hmem, hds⟩,
    List.flatMap_map, hitems]
  simp [State.result, collect, hfaults, houtcomes, hpi, hne]

end Halted

/-! ### Any number of workers -/

section Plain

variable {work : ι → Recall (Outcome ω)} (hwork : ∀ i ∈ items, Plain I (work i))

include hwork

theorem works_of_plain :
    Works I (fun i => Worked.ofOutcome <$> work i) (fun i => (work i).fresh) items := by
  intro i hi
  refine Ensures.map ((hwork i hi).mono fun o ho => ?_)
  rw [Worked.outcome_ofOutcome, ho]

/-- If the work needs no memory, a run that does not halt comes to what the items come to by
themselves. -/
theorem Runs.plain (hm : m.Meets I) (h : Runs stage false workers work items m r m') :
    r = gather stage (items.map fun i => (work i).fresh) ∧ m'.Meets I := by
  obtain ⟨s, hleads, hfinished, rfl, rfl⟩ := h
  have hshown := shown_of_leads (works_of_plain hwork) hm hleads
  have hresult := result_of_finished stage hshown (whole_of_leads hleads)
    (running_of_leads hleads) hfinished
  exact ⟨hresult, hshown.shared.memory⟩

/-- If the work needs no memory and no two items fail, a run that halts comes to the same. -/
theorem Runs.single_failure (hm : m.Meets I) (h : Runs stage halting workers work items m r m')
    (hno : ∀ i ∈ items, (work i).fresh.faulted = false)
    (hfull : ∀ i ∈ items, (work i).fresh ≠ .rejected [])
    (hone : (items.filter fun i => (work i).fresh.failed).length ≤ 1) :
    r = gather stage (items.map fun i => (work i).fresh) := by
  obtain ⟨s, hleads, hfinished, rfl, rfl⟩ := h
  have hshown := shown_of_leads (works_of_plain hwork) hm hleads
  have hwhole := whole_of_leads hleads
  cases hhalted : s.shared.halted with
  | false => exact result_of_finished stage hshown hwhole hhalted hfinished
  | true => exact result_of_halted stage hshown hwhole hhalted hfinished hno hfull hone

/-- If the work on no item is a fault, no run is aborted, whether it halts or not. -/
theorem Runs.not_aborted (hm : m.Meets I) (h : Runs stage halting workers work items m r m')
    (hno : ∀ i ∈ items, (work i).fresh.faulted = false) (faults : List String) :
    r ≠ .error (.aborted faults) := by
  obtain ⟨s, hleads, hfinished, rfl, rfl⟩ := h
  have hshown := shown_of_leads (works_of_plain hwork) hm hleads
  have hnone := faults_of_whole stage hshown (whole_of_leads hleads) hfinished hno
  intro h
  simp only [State.result, collect, hnone] at h
  split at h
  · rename_i hne
    cases hne
  · split at h <;> cases h

/-- A run with outputs has the outputs of all items, as no failure has halted it. -/
theorem Runs.of_ok (hm : m.Meets I) {outputs : List ω}
    (h : Runs stage halting workers work items m (.ok outputs) m')
    (hfull : ∀ i ∈ items, (work i).fresh ≠ .rejected []) :
    gather stage (items.map fun i => (work i).fresh) = .ok outputs := by
  obtain ⟨s, hleads, hfinished, hresult, rfl⟩ := h
  have hshown := shown_of_leads (works_of_plain hwork) hm hleads
  have hwhole := whole_of_leads hleads
  cases hhalted : s.shared.halted with
  | false => exact (result_of_finished stage hshown hwhole hhalted hfinished).symm.trans hresult
  | true =>
    -- a failure has halted the pool, but what is kept of a run with outputs is clean
    exfalso
    obtain ⟨w, hw, p, hp, hfailed⟩ := hwhole.halted hhalted
    have hp : p ∈ s.outcomes := mem_sortBy.2 (List.mem_flatMap.2 ⟨w, hw, hp⟩)
    obtain ⟨i, hi, hpi⟩ := (outcomes_of_whole hshown hwhole hfinished).1 p hp
    have hp_full : p.2 ≠ .rejected [] := hpi ▸ hfull i (List.mem_of_getElem? hi)
    cases hfailed.symm.trans (((collect_ok hresult).1 p hp).succeeded hp_full)

end Plain

end Pool

end TypedSheets
