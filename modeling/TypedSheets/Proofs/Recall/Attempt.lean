import TypedSheets.Proofs.Recall.Ensures

/-!
# What attempts bring about

The ways in which attempts are built from others, and what they ensure and yield: results that are
known, remembered answers, and failures turned into results.

## Main results

* `Recall.yields_remember` — an answer is remembered in keeping with the condition.
* `Recall.yields_result`, `Recall.Gives.result_ok` — a failure as a result.
* `Recall.Gives.mapM_ok` — the results behind a list of results.
-/

namespace TypedSheets.Recall

open Attempt

variable {α β ε ε' : Type} {I : Condition} {Q : α → Prop}

/-! ### Forward -/

theorem yields_fail {f : Failure} : Yields I (fail f : Attempt α) Q :=
  yields_throw

theorem yields_ofExcept {r : Except Failure α} (h : ∀ a, r = .ok a → Q a) :
    Yields I (ofExcept r) Q := by
  cases r with
  | ok a => exact yields_pure (h a rfl)
  | error f => exact yields_fail

/-- A remembered answer meets the condition, and so does one that is computed and noted. -/
theorem yields_remember {q : Query} {compute : Attempt q.Answer} (h : Yields I compute (I q)) :
    Yields I (remember q compute) (I q) := by
  refine ⟨?_, fun a ha b hb => ?_⟩
  · refine Ensures.bind (c := compute.run) h fun r hr => ?_
    cases r with
    | ok a =>
      refine ⟨hr a rfl, fun b hb c hc => ?_⟩
      cases hc
      exact hb
    | error e =>
      intro b hb
      cases hb
  · cases hb
    exact ha

/-- A result that is a failure says nothing, and any other is that of the attempt. -/
theorem yields_result {a : Attempt α} (h : Yields I a Q) :
    Yields I (result a) fun r => ∀ b, r = .ok b → Q b := by
  refine Ensures.bind (c := a.run) h fun r hr => ?_
  rintro b hb c rfl
  rcases r with e | a
  · cases e <;> cases hb
  · cases hb
    exact hr c rfl

theorem yields_adapt {c : ExceptT ε Recall α} {f : ε → ε'} (h : Yields I c Q) :
    Yields I (ExceptT.adapt f c) Q := by
  change Ensures I ((Except.mapError f) <$> c.run) _
  rw [← bind_pure_comp]
  refine Ensures.bind h fun r hr => ?_
  intro b hb
  cases r with
  | ok a =>
    cases hb
    exact hr b rfl
  | error e => cases hb

/-! ### Keeping -/

theorem Keeps.bind_run {c : ExceptT ε Recall α} {f : α → ExceptT ε Recall β} (h : Keeps I c.run)
    (hf : ∀ a, Keeps I (f a).run) : Keeps I (c >>= f).run :=
  (h.yields.bind fun a _ => (hf a).yields).keeps

theorem Keeps.map_run {c : ExceptT ε Recall α} {f : α → β} (h : Keeps I c.run) :
    Keeps I (f <$> c).run :=
  Yields.keeps (Yields.map (Q := fun _ => True) h.yields)

theorem Keeps.mapM_run {ι : Type} {f : ι → ExceptT ε Recall α} {l : List ι}
    (h : ∀ i ∈ l, Keeps I (f i).run) : Keeps I (l.mapM f).run :=
  (yields_mapM fun i hi => (h i hi).yields).keeps

theorem Keeps.result {a : Attempt α} (h : Keeps I a.run) : Keeps I (result a).run :=
  (yields_result h.yields).keeps

/-! ### Backward -/

theorem Gives.mono {J : Condition} {c : Recall α} {a : α} (h : Gives I c a)
    (hIJ : ∀ q a, I q a → J q a) : Gives J c a := by
  obtain ⟨m, hm, ha⟩ := h
  exact ⟨m, hm.mono hIJ, ha⟩

theorem Gives.result_ok {a : Attempt α} {b : α} (h : Gives I (result a).run (.ok (.ok b))) :
    Gives I a.run (.ok b) := by
  obtain ⟨m, hm, hb⟩ := h
  refine ⟨m, hm, ?_⟩
  change ((a.run >>= _).run m).1 = _ at hb
  rw [run_bind] at hb
  revert hb
  cases (a.run.run m).1 with
  | ok a => intro hb; cases hb; rfl
  | error e => intro hb; cases e <;> cases hb

theorem Gives.adapt_ok {c : ExceptT ε Recall α} {f : ε → ε'} {b : α}
    (h : Gives I (ExceptT.adapt f c).run (.ok b)) : Gives I c.run (.ok b) := by
  obtain ⟨r, hr, hb⟩ := Gives.map (c := c.run) (f := Except.mapError f) h
  cases r with
  | ok a =>
    cases hb
    exact hr
  | error e => cases hb

theorem Gives.lift_ok {c : Recall α} {b : α}
    (h : Gives I (ExceptT.lift c : ExceptT ε Recall α).run (.ok b)) : Gives I c b := by
  obtain ⟨a, ha, hb⟩ := Gives.map (c := c) (f := Except.ok) h
  cases hb
  exact ha

theorem Gives.map_ok {c : ExceptT ε Recall α} {f : α → β} {b : β}
    (h : Gives I (f <$> c).run (.ok b)) (hc : Keeps I c.run) :
    ∃ a, Gives I c.run (.ok a) ∧ f a = b := by
  rw [← bind_pure_comp] at h
  obtain ⟨a, ha, h⟩ := h.bind_ok hc
  exact ⟨a, ha, h.pure_ok⟩

/-- The results of a list of attempts that all succeed are results of the single ones. -/
theorem Gives.mapM_ok {ι : Type} {f : ι → ExceptT ε Recall α} {l : List ι} {as : List α}
    (h : Gives I (l.mapM f).run (.ok as)) (hf : ∀ i ∈ l, Keeps I (f i).run) :
    List.Forall₂ (fun i a => Gives I (f i).run (.ok a)) l as := by
  induction l generalizing as with
  | nil =>
    rw [List.mapM_nil] at h
    cases h.pure_ok
    exact .nil
  | cons i l ih =>
    rw [List.mapM_cons] at h
    obtain ⟨a, ha, h⟩ := h.bind_ok (hf i (List.mem_cons_self ..))
    have hl : ∀ j ∈ l, Keeps I (f j).run := fun j hj => hf j (List.mem_cons_of_mem i hj)
    obtain ⟨as', has', h⟩ := h.bind_ok (yields_mapM fun j hj => (hl j hj).yields).keeps
    cases h.pure_ok
    exact .cons ha (ih has' hl)

/-- If nothing is found by a list of attempts, nothing is found by any of them. -/
theorem Gives.mapM_nil {ι : Type} {f : ι → ExceptT ε Recall (List α)} {l : List ι}
    {found : List (List α)} (h : Gives I (l.mapM f).run (.ok found)) (hnil : found.flatten = [])
    (hf : ∀ i ∈ l, Keeps I (f i).run) : ∀ i ∈ l, Gives I (f i).run (.ok []) := by
  intro i hi
  obtain ⟨as, has, hgives⟩ := (h.mapM_ok hf).exists_of_mem_left hi
  cases List.flatten_eq_nil_iff.1 hnil as has
  exact hgives

end TypedSheets.Recall
