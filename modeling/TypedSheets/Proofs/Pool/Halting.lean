import TypedSheets.Proofs.Keyed
import TypedSheets.Proofs.Pool.Runs

/-!
# Pools that halt

A pool that halts on the first failure drops items: a worker that finds the flag set leaves with the
item it has just taken, and what is still in the queue is never taken. An item is dropped only after
a failure, though, and the failure is kept. So a run has outputs only if every item was worked on
and has succeeded, and a run that drops items reports a part of what its items have to report. Which
part depends on the order of the turns, and with it what the work finds in the memory; with one
worker, it is what comes up to the first failure.

## Main definitions

* `Pool.Completes` — outcomes of all items, among them those that a run has kept.

## Main results

* `Pool.Completes.sublist` — what a run has kept is a part of the outcomes of all items, in order.
* `Pool.take_of_run` — a run from item to item stops behind the first failure.
* `Pool.dropped_only_after_failure` — what a halting run comes to, in every interleaving.
-/

namespace TypedSheets

open Recall

variable {ι ω : Type} {I : Condition}

/-- The diagnostics of some outcomes are those of the failures among them. -/
theorem Outcome.flatMap_diagnostics_filter (os : List (Outcome ω)) :
    (os.filter failed).flatMap diagnostics = os.flatMap diagnostics := by
  induction os with
  | nil => rfl
  | cons o os ih =>
    cases o with
    | success outputs => exact ih
    | _ => exact congrArg (_ ++ ·) ih

namespace Pool

variable {work : ι → Recall (Worked ω)} {R : ι → Outcome ω → Prop} {items : List ι}
  {s : State ι ω} {os : List (Outcome ω)}

/-! ### Outcomes of all items -/

/-- Outcomes that the work on the items can have, with those that a run has kept at their
positions. -/
structure Completes (R : ι → Outcome ω → Prop) (items : List ι) (s : State ι ω)
    (os : List (Outcome ω)) : Prop where
  /-- The work on each item can have its outcome. -/
  outcomes : List.Forall₂ R items os
  /-- What was kept is among them. -/
  kept : ∀ p ∈ s.outcomes, os[p.1]? = some p.2

/-- The outcomes that are kept in a finished run are in the order of the items, with no item
twice. -/
theorem pairwise_outcomes (hwhole : Whole items.length s) (hfinished : s.Finished) :
    s.outcomes.Pairwise fun p q => p.1 < q.1 := by
  have hsorted : s.outcomes.Pairwise fun p q => p.1 ≤ q.1 := by
    have horder := pairwise_sortBy (fun p q : Nat × Outcome ω => decide (p.1 ≤ q.1))
      (fun p q => by simpa using Nat.le_total p.1 q.1)
      (fun p q r hpq hqr => decide_eq_true
        (Nat.le_trans (of_decide_eq_true hpq) (of_decide_eq_true hqr)))
      (s.workers.flatMap Worker.finished)
    exact horder.imp of_decide_eq_true
  exact hsorted.imp₂ (fun _ _ hle hne => Nat.lt_of_le_of_ne hle hne)
    (distinct_of_whole hwhole hfinished)

/-- What a finished run has kept can be completed. -/
theorem exists_completes (hwork : Brings I work R items) (hfits : Fits I R items s)
    (hwhole : Whole items.length s) (hfinished : s.Finished) : ∃ os, Completes R items s os := by
  have hkept : ∀ p ∈ s.outcomes, ∃ i, items[p.1]? = some i ∧ R i p.2 := by
    intro p hp
    obtain ⟨w, hw, hp⟩ := List.mem_flatMap.1 (mem_sortBy.1 hp)
    exact (hfits.workers w hw).finished p hp
  have hnodup : (s.outcomes.map Prod.fst).Nodup :=
    List.pairwise_map.2 (distinct_of_whole hwhole hfinished)
  -- an item whose outcome was not kept has the one that it has without a memory
  let outcomeAt (p : ι × Nat) : Outcome ω :=
    (Keyed.lookup p.2 s.outcomes).getD (work p.1).fresh.outcome
  have hcan (k : Nat) (hk : k < items.length) : R items[k] (outcomeAt (items[k], k)) := by
    cases hlookup : Keyed.lookup k s.outcomes with
    | none =>
      simp only [outcomeAt, hlookup, Option.getD_none]
      exact (hwork _ (List.getElem_mem hk)).fresh
    | some o =>
      obtain ⟨i, hi, hR⟩ := hkept _ (Keyed.mem_of_lookup hlookup)
      cases (List.getElem?_eq_getElem hk).symm.trans hi
      simpa only [outcomeAt, hlookup, Option.getD_some] using hR
  refine ⟨items.zipIdx.map outcomeAt, ?_, fun p hp => ?_⟩
  · refine List.forall₂_iff_get.2 ⟨by simp, fun k hk _ => ?_⟩
    simpa using hcan k hk
  · obtain ⟨i, hi, -⟩ := hkept p hp
    simp [hi, outcomeAt, Keyed.lookup_of_mem hnodup hp]

namespace Completes

theorem length_eq (hos : Completes R items s os) : os.length = items.length :=
  hos.outcomes.length_eq.symm

/-- No outcome is a rejection without diagnostics, if the work on no item can have this outcome. -/
theorem ne_rejected (hos : Completes R items s os) (hfull : ∀ i ∈ items, ¬ R i (.rejected [])) :
    ∀ o ∈ os, o ≠ .rejected [] := by
  rintro o ho rfl
  obtain ⟨i, hi, hR⟩ := hos.outcomes.exists_of_mem_right ho
  exact hfull i hi hR

/-- What a finished run has kept is a part of the outcomes of all items, in their order. -/
theorem sublist (hos : Completes R items s os) (hwhole : Whole items.length s)
    (hfinished : s.Finished) : s.outcomes.Sublist (os.zipIdx.map Prod.swap) := by
  have hordered := pairwise_outcomes hwhole hfinished
  have hplaces : (os.zipIdx.map Prod.swap).Pairwise fun p q : Nat × Outcome ω => p.1 < q.1 := by
    have hpositions : (os.zipIdx.map Prod.snd).Pairwise (· < ·) :=
      (List.zipIdx_map_snd 0 os) ▸ List.pairwise_lt_range'
    exact List.pairwise_map.2 (List.pairwise_map.1 hpositions)
  have hsubset : s.outcomes ⊆ os.zipIdx.map Prod.swap := fun p hp =>
    List.mem_map.2 ⟨p.swap, List.mk_mem_zipIdx_iff_getElem?.2 (hos.kept p hp), p.swap_swap⟩
  have hnodup : s.outcomes.Nodup := hordered.imp fun hlt heq => Nat.ne_of_lt hlt (congrArg _ heq)
  have : Std.Antisymm fun p q : Nat × Outcome ω => p.1 < q.1 :=
    ⟨fun _ _ hlt hgt => absurd hgt (Nat.lt_asymm hlt)⟩
  exact List.sublist_of_subperm_of_pairwise (List.subperm_of_subset hnodup hsubset) hordered
    hplaces

end Completes

/-! ### What a halting run comes to -/

/-- A run with outputs has dropped nothing: each item was worked on and has succeeded. -/
theorem Completes.of_ok (hos : Completes R items s os) (hfull : ∀ i ∈ items, ¬ R i (.rejected []))
    (hwhole : Whole items.length s) (hfinished : s.Finished) {stage : String} {outputs : List ω}
    (h : s.result stage = .ok outputs) :
    s.outcomes = os.zipIdx.map Prod.swap ∧ (∀ o ∈ os, o.failed = false) ∧
      outputs = os.flatMap Outcome.outputs := by
  have hne := hos.ne_rejected hfull
  have hclean := (collect_ok h).1
  have hrunning : s.shared.halted = false := by
    by_contra hhalted
    obtain ⟨w, hw, p, hp, hfailed⟩ := hwhole.halted (by simpa using hhalted)
    have hp : p ∈ s.outcomes := mem_sortBy.2 (List.mem_flatMap.2 ⟨w, hw, hp⟩)
    have hp_full := hne p.2 (List.mem_of_getElem? (hos.kept p hp))
    cases hfailed.symm.trans ((hclean p hp).succeeded hp_full)
  have houtcomes := outcomes_of_running hos.length_eq hos.kept hwhole hrunning hfinished
  rw [State.result, houtcomes, collect_zipIdx] at h
  obtain ⟨hclean, houtputs⟩ := gather_ok h
  exact ⟨houtcomes, fun o ho => (hclean o ho).succeeded (hne o ho), houtputs⟩

/-- The diagnostics of a rejected run are a part of those of all items, in their order. -/
theorem Completes.of_rejected (hos : Completes R items s os) (hwhole : Whole items.length s)
    (hfinished : s.Finished) {stage : String} {ds : List Diagnostic}
    (h : s.result stage = .error (.rejected ds)) :
    ds ≠ [] ∧ ds.Sublist ((os.filter Outcome.failed).flatMap Outcome.diagnostics) := by
  obtain ⟨hne, rfl⟩ := collect_rejected h
  refine ⟨hne, ?_⟩
  have hall : (os.zipIdx.map Prod.swap).flatMap (fun p => p.2.diagnostics) =
      os.flatMap Outcome.diagnostics := by
    rw [List.flatMap_map]
    conv_rhs => rw [← List.zipIdx_map_fst 0 os, List.flatMap_map]
    rfl
  rw [Outcome.flatMap_diagnostics_filter, ← hall]
  exact (hos.sublist hwhole hfinished).flatMap _

/-- A run that has kept a failure fails. -/
theorem error_of_failed {stage : String} (hfull : ∀ p ∈ s.outcomes, p.2 ≠ .rejected [])
    (h : ∃ p ∈ s.outcomes, p.2.failed = true) :
    (∃ faults, s.result stage = .error (.aborted faults)) ∨
      ∃ ds, s.result stage = .error (.rejected ds) := by
  obtain ⟨p, hp, hfailed⟩ := h
  cases hresult : s.result stage with
  | ok outputs =>
    cases hfailed.symm.trans (((collect_ok hresult).1 p hp).succeeded (hfull p hp))
  | error failure =>
    cases failure with
    | aborted faults => exact .inl ⟨faults, rfl⟩
    | rejected ds => exact .inr ⟨ds, rfl⟩

/-- A run from item to item stops behind the first failure. -/
theorem take_of_run {work : ι → Recall (Outcome ω)} {items : List ι} {m : Memory}
    {os : List (Outcome ω)} (hlength : os.length = items.length)
    (h : ((outcomes true work items).run m).1 <+: os) :
    ((outcomes true work items).run m).1 = os.take (os.findIdx Outcome.failed + 1) := by
  induction items generalizing os m with
  | nil =>
    cases List.eq_nil_of_length_eq_zero hlength
    rfl
  | cons i items ih =>
    cases os with
    | nil => cases hlength
    | cons o os =>
      cases hfailed : ((work i).run m).1.failed with
      | true =>
        have hrun : ((outcomes true work (i :: items)).run m).1 = [((work i).run m).1] := by
          simp only [outcomes, run_bind, hfailed, Bool.and_self, if_true]
          rfl
        rw [hrun] at h ⊢
        obtain ⟨rfl, -⟩ := List.cons_prefix_cons.1 h
        simp [List.findIdx_cons, hfailed]
      | false =>
        have hrun : ((outcomes true work (i :: items)).run m).1 =
            ((work i).run m).1 :: ((outcomes true work items).run ((work i).run m).2).1 := by
          simp only [outcomes, run_bind, hfailed, Bool.and_false, Bool.false_eq_true, if_false]
          rfl
        rw [hrun] at h ⊢
        obtain ⟨rfl, hrest⟩ := List.cons_prefix_cons.1 h
        rw [List.findIdx_cons, hfailed, cond_false, List.take_succ_cons,
          ← ih (Nat.succ.inj hlength) hrest]

/-- One worker keeps the outcomes up to the first failure, and nothing else. -/
theorem Completes.of_one (hos : Completes R items s os) {workers : Nat} (hone : workers ≤ 1)
    {m : Memory} (h : Leads work true (start ω workers items m) s) (hfinished : s.Finished) :
    s.outcomes = (os.take (os.findIdx Outcome.failed + 1)).zipIdx.map Prod.swap := by
  obtain ⟨houtcomes, -⟩ := outcomes_of_one hone h hfinished
  rw [houtcomes]
  refine congrArg (List.map Prod.swap ∘ List.zipIdx) (take_of_run hos.length_eq ?_)
  refine List.prefix_iff_getElem?.2 fun k hk => hos.kept (k, _) ?_
  rw [houtcomes]
  have hplace := List.mk_mem_zipIdx_iff_getElem?.2 (List.getElem?_eq_getElem hk)
  exact List.mem_map.2 ⟨_, hplace, rfl⟩

/-- **A halting run drops items only after a failure.** Let the work on no item be rejected without
diagnostics. In every state of a run that halts on the first failure no item is in two places; until
the workers have left, one of them has a turn, and no run goes on forever. What a finished run has
kept can be completed by outcomes of the items that it has dropped, and for all such outcomes:

* if the run has outputs, then nothing was dropped, no item has failed, and the outputs are those of
  all items in order;
* if an item that was worked on has failed, then the run is aborted or rejected;
* if the run is rejected, then with a part of the diagnostics of all items that fail, in order, and
  not with nothing;
* if there is one worker, then the items up to and including the first that fails were worked on,
  and no others. -/
theorem dropped_only_after_failure (hwork : Brings I work R items)
    (hfull : ∀ i ∈ items, ¬ R i (.rejected [])) {m : Memory} (hm : m.Meets I) (workers : Nat)
    (stage : String) :
    (∀ s, Leads work true (start ω workers items m) s →
      s.positions.Subperm (List.range items.length) ∧
      (¬ s.Finished → ∃ s', Step work true s s') ∧
      (s.Finished →
        (∃ os, Completes R items s os) ∧
        ∀ os, Completes R items s os →
          (∀ outputs, s.result stage = .ok outputs →
            s.outcomes = os.zipIdx.map Prod.swap ∧ (∀ o ∈ os, o.failed = false) ∧
              outputs = os.flatMap Outcome.outputs) ∧
          ((∃ p ∈ s.outcomes, p.2.failed = true) →
            (∃ faults, s.result stage = .error (.aborted faults)) ∨
              ∃ ds, s.result stage = .error (.rejected ds)) ∧
          (∀ ds, s.result stage = .error (.rejected ds) →
            ds ≠ [] ∧ ds.Sublist ((os.filter Outcome.failed).flatMap Outcome.diagnostics)) ∧
          (workers ≤ 1 →
            s.outcomes = (os.take (os.findIdx Outcome.failed + 1)).zipIdx.map Prod.swap))) ∧
      WellFounded fun s' s : State ι ω => Step work true s s' := by
  refine ⟨fun s h => ?_, wellFounded_step⟩
  have hwhole := whole_of_leads h
  have hfits := fits_of_leads hwork hm h
  refine ⟨hwhole.kept, exists_step, fun hfinished => ⟨?_, fun os hos => ?_⟩⟩
  · exact exists_completes hwork hfits hwhole hfinished
  · refine ⟨fun outputs => hos.of_ok hfull hwhole hfinished, error_of_failed fun p hp => ?_,
      fun ds => hos.of_rejected hwhole hfinished, fun hone => hos.of_one hone h hfinished⟩
    exact hos.ne_rejected hfull p.2 (List.mem_of_getElem? (hos.kept p hp))

/-- Two workers share three numbers, of which the last two are rejected. However they take turns,
the run can be ended, and it has no outputs; one worker keeps the outcomes of the first two
numbers. -/
theorem dropped_only_after_failure_echo :
    (∃ s, Leads (fun n => pure (echo n)) true (start Nat 2 [0, 2, 3] {}) s ∧ s.Finished) ∧
      (∀ s, Leads (fun n => pure (echo n)) true (start Nat 2 [0, 2, 3] {}) s → s.Finished →
        ∀ outputs, s.result "echo" ≠ .ok outputs) ∧
      ∀ s, Leads (fun n => pure (echo n)) true (start Nat 1 [0, 2, 3] {}) s → s.Finished →
        s.outcomes = [(0, .success [0, 0]), (1, .rejected [{ failure := .parse "no" }])] := by
  have hwork : Brings (fun _ _ => True) (fun n => pure (echo n)) (fun n o => o = (echo n).outcome)
      [0, 2, 3] := fun n _ => rfl
  have hfull : ∀ n ∈ [0, 2, 3], ¬ (Outcome.rejected [] = (echo n).outcome) := by
    intro n hn
    simp only [List.mem_cons, List.not_mem_nil, or_false] at hn
    rcases hn with rfl | rfl | rfl <;> intro h <;> cases h
  have heach {s : State Nat Nat} {os : List (Outcome Nat)}
      (hos : Completes (fun n o => o = (echo n).outcome) [0, 2, 3] s os) :
      os = [(echo 0).outcome, (echo 2).outcome, (echo 3).outcome] := by
    obtain ⟨houtcomes, -⟩ := hos
    simp only [List.forall₂_cons_left_iff, List.forall₂_nil_left_iff] at houtcomes
    obtain ⟨_, _, rfl, ⟨_, _, rfl, ⟨_, _, rfl, rfl, rfl⟩, rfl⟩, rfl⟩ := houtcomes
    rfl
  refine ⟨exists_finished _, fun s h hfinished outputs hresult => ?_, fun s h hfinished => ?_⟩
  · obtain ⟨hstates, -⟩ :=
      dropped_only_after_failure hwork hfull (Memory.meets_empty _) 2 "echo"
    obtain ⟨-, -, hcomes⟩ := hstates s h
    obtain ⟨⟨os, hos⟩, hall⟩ := hcomes hfinished
    obtain ⟨-, hsucceeded, -⟩ := (hall os hos).1 outputs hresult
    cases hsucceeded (echo 2).outcome (by simp [heach hos])
  · obtain ⟨hstates, -⟩ :=
      dropped_only_after_failure hwork hfull (Memory.meets_empty _) 1 "echo"
    obtain ⟨-, -, hcomes⟩ := hstates s h
    obtain ⟨⟨os, hos⟩, hall⟩ := hcomes hfinished
    obtain ⟨-, -, -, hone⟩ := hall os hos
    rw [hone (Nat.le_refl 1), heach hos]
    rfl

end Pool

end TypedSheets
