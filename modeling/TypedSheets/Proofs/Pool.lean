import TypedSheets.Pool
import TypedSheets.Proofs.Recall.Attempt

/-!
# Runs of the pool

What a run that is gathered without a complaint says about its items: each of them was worked on,
none of them failed, and the outputs are those of the items one after the other.

## Main definitions

* `Outcome.Clean` — an outcome that is nothing to complain about.

## Main results

* `Pool.gather_ok` — the outcomes behind a result.
* `Pool.exists_of_mem_run` — the item behind an output.
* `Pool.keeps_run` — a run keeps the condition that the work on each item keeps.
* `Recall.Gives.run_ok` — the outcomes of the items behind a run with a result.
* `Recall.Gives.ofAttempt` — the attempt behind a clean outcome.
-/

namespace TypedSheets

open Recall

variable {ι ω : Type} {I : Condition}

/-- An outcome that is nothing to complain about. -/
def Outcome.Clean : Outcome ω → Prop
  | success _ => True
  | rejected diagnostics => diagnostics = []
  | _ => False

theorem Outcome.Clean.diagnostics_eq {o : Outcome ω} (h : o.Clean) : o.diagnostics = [] := by
  cases o with
  | rejected ds => exact h
  | _ => rfl

/-- What is clean has not failed, unless it is a rejection without diagnostics. -/
theorem Outcome.Clean.succeeded {o : Outcome ω} (h : o.Clean) (hfull : o ≠ .rejected []) :
    o.failed = false := by
  cases o with
  | success outputs => rfl
  | rejected ds => exact absurd (congrArg _ h) hfull
  | fault text => cases h
  | panic text => cases h

theorem Outcome.clean_of_nil {o : Outcome ω} {stage : String} {position : Nat}
    (hf : o.faults stage position = []) (hd : o.diagnostics = []) : o.Clean := by
  cases o with
  | success outputs => trivial
  | rejected diagnostics => exact hd
  | fault text => cases hf
  | panic text => cases hf

namespace Pool

theorem clean_of_faultsFrom {stage : String} {position : Nat} {os : List (Outcome ω)}
    (hf : faultsFrom stage position os = []) (hd : os.flatMap Outcome.diagnostics = []) :
    ∀ o ∈ os, o.Clean := by
  induction os generalizing position with
  | nil =>
    intro o ho
    cases ho
  | cons o os ih =>
    rw [faultsFrom, List.append_eq_nil_iff] at hf
    rw [List.flatMap_cons, List.append_eq_nil_iff] at hd
    intro o' ho
    rcases List.mem_cons.1 ho with rfl | ho
    · exact Outcome.clean_of_nil hf.1 hd.1
    · exact ih hf.2 hd.2 o' ho

/-- A result is gathered only from clean outcomes, and is made of their outputs. -/
theorem gather_ok {stage : String} {os : List (Outcome ω)} {outputs : List ω}
    (h : gather stage os = .ok outputs) :
    (∀ o ∈ os, o.Clean) ∧ outputs = os.flatMap Outcome.outputs := by
  unfold gather at h
  dsimp only at h
  split at h
  · cases h
  · rename_i hf
    split at h
    · cases h
    · rename_i hd
      cases h
      exact ⟨clean_of_faultsFrom (by simpa using hf) (by simpa using hd), rfl⟩

/-- Diagnostics are gathered only if there are some. -/
theorem gather_rejected {stage : String} {os : List (Outcome ω)} {diagnostics : List Diagnostic}
    (h : gather stage os = .error (.rejected diagnostics)) : diagnostics ≠ [] := by
  unfold gather at h
  dsimp only at h
  split at h
  · cases h
  · split at h
    · rename_i hd
      cases h
      simpa using hd
    · cases h

/-- A pool works on images as on what they are images of. -/
theorem outcomes_map {κ : Type} {m : Type → Type} [Monad m] (halting : Bool)
    (work : ι → m (Outcome ω)) (f : κ → ι) (items : List κ) :
    outcomes halting work (items.map f) = outcomes halting (work ∘ f) items := by
  induction items with
  | nil => rfl
  | cons item items ih =>
    rw [List.map_cons, outcomes, outcomes, ih]
    rfl

/-- A pool that does not halt works on every item. -/
theorem outcomes_false {m : Type → Type} [Monad m] [LawfulMonad m] (work : ι → m (Outcome ω))
    (items : List ι) : outcomes false work items = items.mapM work := by
  induction items with
  | nil => rfl
  | cons item items ih =>
    rw [List.mapM_cons, outcomes]
    simp only [Bool.false_and, Bool.false_eq_true, if_false, ih]

/-- Every outcome, of a halting pool too, is that of an item. -/
theorem exists_of_mem_outcomes {halting : Bool} {work : ι → Id (Outcome ω)} {items : List ι}
    {o : Outcome ω} (h : o ∈ (outcomes halting work items).run) :
    ∃ i ∈ items, o = (work i).run := by
  induction items with
  | nil => cases h
  | cons i items ih =>
    change o ∈ (if (halting && (work i).run.failed) = true then [(work i).run]
      else (work i).run :: (outcomes halting work items).run) at h
    split at h
    · cases List.mem_singleton.1 h
      exact ⟨i, List.mem_cons_self .., rfl⟩
    · rcases List.mem_cons.1 h with rfl | h
      · exact ⟨i, List.mem_cons_self .., rfl⟩
      · obtain ⟨j, hj, ho⟩ := ih h
        exact ⟨j, List.mem_cons_of_mem i hj, ho⟩

/-- If no item fails, all items are worked on. -/
theorem outcomes_of_succeeded {halting : Bool} {f : ι → Outcome ω} {items : List ι}
    (h : ∀ o ∈ (outcomes halting (fun i => (pure (f i) : Id (Outcome ω))) items).run,
      o.failed = false) :
    (outcomes halting (fun i => (pure (f i) : Id (Outcome ω))) items).run = items.map f := by
  induction items with
  | nil => rfl
  | cons i items ih =>
    change ∀ o ∈ (if (halting && (f i).failed) = true then [f i]
      else f i :: (outcomes halting (fun i => (pure (f i) : Id (Outcome ω))) items).run),
        o.failed = false at h
    change (if (halting && (f i).failed) = true then [f i]
      else f i :: (outcomes halting (fun i => (pure (f i) : Id (Outcome ω))) items).run) = _
    split at h
    · rename_i hfailed
      have hno := h _ (List.mem_singleton.2 rfl)
      simp [hno] at hfailed
    · rename_i hno
      rw [if_neg hno, List.map_cons, ih fun o ho => h o (List.mem_cons_of_mem _ ho)]

/-- Every output of a run, of a halting one too, is an output of an item. -/
theorem exists_of_mem_run {stage : String} {halting : Bool} {work : ι → Id (Outcome ω)}
    {items : List ι} {outputs : List ω}
    (h : (run stage halting work items).run = .ok outputs) {out : ω} (ho : out ∈ outputs) :
    ∃ i ∈ items, out ∈ (work i).run.outputs := by
  have h : gather stage (outcomes halting work items).run = .ok outputs := h
  obtain ⟨-, rfl⟩ := gather_ok h
  obtain ⟨o, hmem, hout⟩ := List.mem_flatMap.1 ho
  obtain ⟨i, hi, rfl⟩ := exists_of_mem_outcomes hmem
  exact ⟨i, hi, hout⟩

theorem keeps_run {stage : String} {work : ι → Recall (Outcome ω)} {items : List ι}
    (h : ∀ i ∈ items, Keeps I (work i)) : Keeps I (run stage false work items) := by
  unfold run
  rw [outcomes_false]
  exact (Keeps.mapM h).map

end Pool

namespace Recall

/-- Behind a run with a result there is a clean outcome of each item, and the result is made of
their outputs. -/
theorem Gives.run_ok {stage : String} {work : ι → Recall (Outcome ω)} {items : List ι}
    {outputs : List ω} (h : Gives I (Pool.run stage false work items) (.ok outputs))
    (hk : ∀ i ∈ items, Keeps I (work i)) :
    ∃ os : List (Outcome ω), List.Forall₂ (fun i o => Gives I (work i) o) items os ∧
      (∀ o ∈ os, o.Clean) ∧ outputs = os.flatMap Outcome.outputs := by
  unfold Pool.run at h
  rw [Pool.outcomes_false] at h
  obtain ⟨os, hos, hgather⟩ := h.map
  obtain ⟨hclean, houtputs⟩ := Pool.gather_ok hgather
  exact ⟨os, hos.mapM hk, hclean, houtputs⟩

theorem keeps_ofAttempt {a : Attempt (Outcome ω)} (h : Keeps I a.run) :
    Keeps I (Outcome.ofAttempt a) :=
  Keeps.bind (c := a.run) h fun _ => trivial

/-- Behind a clean outcome there is an attempt that has come to it. -/
theorem Gives.ofAttempt {a : Attempt (Outcome ω)} {o : Outcome ω}
    (h : Gives I (Outcome.ofAttempt a) o) (hk : Keeps I a.run) (ho : o.Clean) :
    Gives I a.run (.ok o) := by
  obtain ⟨r, hr, h⟩ := Gives.bind (c := a.run) h hk
  have h := h.pure
  match r, h with
  | .ok o', h =>
    cases h
    exact hr
  | .error (.failure f), h =>
    rw [← h] at ho
    cases ho
  | .error .overflow, h =>
    rw [← h] at ho
    cases ho
  | .error .endless, h =>
    rw [← h] at ho
    cases ho

end Recall

end TypedSheets
