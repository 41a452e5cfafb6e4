import TypedSheets.Chunks
import TypedSheets.Proofs.Pool.Interleaving

/-!
# Work in pieces

One piece of work can be cut into several, and several put together into one. What a run comes to
stays the same as long as the pieces come to the same together: one of them has a fault if one of
the others has, their diagnostics are the same one after the other, and so is what their outputs are
put together to.

## Main definitions

* `Pool.SameWork` — two lists of outcomes come to the same.

## Main results

* `Pool.sameWork_chunks` — work in chunks of one size comes to the same as in chunks of another.
* `Pool.SameWork.gather_eq` — a run without faults comes to the same.
-/

namespace TypedSheets

/-- No chunk is empty. -/
theorem ne_nil_of_mem_chunksOf {α : Type} {size : Nat} {l chunk : List α}
    (h : chunk ∈ chunksOf size l) : chunk ≠ [] := by
  fun_induction chunksOf size l with
  | case1 => cases h
  | case2 a l ih =>
    rcases List.mem_cons.1 h with rfl | h
    · exact List.cons_ne_nil _ _
    · exact ih h

namespace Pool

variable {α ω σ : Type} {add : σ → ω → σ} {os os' os'' ps ps' : List (Outcome ω)}

/-- No outcome is a fault. -/
def Calm (os : List (Outcome ω)) : Prop :=
  ∀ o ∈ os, o.faulted = false

theorem calm_append : Calm (os ++ ps) ↔ Calm os ∧ Calm ps :=
  List.forall_mem_append

/-- In a run that is not aborted no outcome is a fault. -/
theorem calm_of_gather {stage : String}
    (h : ∀ faults, gather stage os ≠ .error (.aborted faults)) : Calm os := by
  intro o ho
  by_contra hfault
  exact h _ (gather_of_faulted ⟨o, ho, by simpa using hfault⟩)

/-- A run in which no outcome is a fault is not aborted. -/
theorem Calm.not_aborted (h : Calm os) (stage : String) (faults : List String) :
    gather stage os ≠ .error (.aborted faults) := by
  unfold gather
  rw [faultsFrom_eq_nil.2 h]
  dsimp only
  split
  · rename_i hne
    cases hne
  · split <;> exact nofun

/-- Two lists of outcomes come to the same, when outputs are added to something one after the
other. -/
structure SameWork (add : σ → ω → σ) (os os' : List (Outcome ω)) : Prop where
  /-- There are faults in both or in none. -/
  calm : Calm os ↔ Calm os'
  /-- There are the same diagnostics. -/
  diagnostics : Calm os → os.flatMap Outcome.diagnostics = os'.flatMap Outcome.diagnostics
  /-- The outputs come to the same. -/
  outputs : Calm os → os.flatMap Outcome.diagnostics = [] → ∀ x,
    (os.flatMap Outcome.outputs).foldl add x = (os'.flatMap Outcome.outputs).foldl add x

namespace SameWork

theorem refl (os : List (Outcome ω)) : SameWork add os os :=
  ⟨.rfl, fun _ => rfl, fun _ _ _ => rfl⟩

theorem symm (h : SameWork add os os') : SameWork add os' os where
  calm := h.calm.symm
  diagnostics hcalm := (h.diagnostics (h.calm.2 hcalm)).symm
  outputs hcalm hnil x :=
    (h.outputs (h.calm.2 hcalm) ((h.diagnostics (h.calm.2 hcalm)).trans hnil) x).symm

theorem trans (h : SameWork add os os') (h' : SameWork add os' os'') : SameWork add os os'' where
  calm := h.calm.trans h'.calm
  diagnostics hcalm := (h.diagnostics hcalm).trans (h'.diagnostics (h.calm.1 hcalm))
  outputs hcalm hnil x := by
    have hcalm' := h.calm.1 hcalm
    exact (h.outputs hcalm hnil x).trans
      (h'.outputs hcalm' ((h.diagnostics hcalm).symm.trans hnil) x)

theorem append (h : SameWork add os os') (h' : SameWork add ps ps') :
    SameWork add (os ++ ps) (os' ++ ps') where
  calm := by rw [calm_append, calm_append, h.calm, h'.calm]
  diagnostics hcalm := by
    obtain ⟨hos, hps⟩ := calm_append.1 hcalm
    rw [List.flatMap_append, List.flatMap_append, h.diagnostics hos, h'.diagnostics hps]
  outputs hcalm hnil x := by
    obtain ⟨hos, hps⟩ := calm_append.1 hcalm
    rw [List.flatMap_append, List.append_eq_nil_iff] at hnil
    rw [List.flatMap_append, List.flatMap_append, List.foldl_append, List.foldl_append,
      h.outputs hos hnil.1, h'.outputs hps hnil.2]

/-- What is the same for each of some things is the same for all of them. -/
theorem flatMap {f g : α → List (Outcome ω)} {l : List α} (h : ∀ a ∈ l, SameWork add (f a) (g a)) :
    SameWork add (l.flatMap f) (l.flatMap g) := by
  induction l with
  | nil => exact refl []
  | cons a l ih =>
    rw [List.flatMap_cons, List.flatMap_cons]
    exact (h a (List.mem_cons_self ..)).append (ih fun b hb => h b (List.mem_cons_of_mem a hb))

/-- A run without faults comes to the same. -/
theorem gather_eq (h : SameWork add os os') (hcalm : Calm os) (stage : String) (x : σ) :
    (gather stage os).map (List.foldl add x) = (gather stage os').map (List.foldl add x) := by
  rw [gather, gather, faultsFrom_eq_nil.2 hcalm, faultsFrom_eq_nil.2 (h.calm.1 hcalm),
    ← h.diagnostics hcalm]
  cases hds : os.flatMap Outcome.diagnostics with
  | nil => exact congrArg Except.ok (h.outputs hcalm hds x)
  | cons d ds => rfl

end SameWork

/-- If there are faults in both, nothing else matters. -/
theorem SameWork.of_faults (h : ¬ Calm os) (h' : ¬ Calm os') : SameWork add os os' where
  calm := ⟨fun hcalm => absurd hcalm h, fun hcalm => absurd hcalm h'⟩
  diagnostics hcalm := absurd hcalm h
  outputs hcalm := absurd hcalm h

/-- What is reported: outputs, unless there is something to complain about. -/
def verdictOf (diagnostics : List Diagnostic) (outputs : List ω) : Outcome ω :=
  if diagnostics.isEmpty then .success outputs else .rejected diagnostics

theorem calm_verdictOf (ds : List Diagnostic) (os : List ω) :
    (verdictOf ds os).faulted = false := by
  unfold verdictOf
  split <;> rfl

theorem diagnostics_verdictOf (ds : List Diagnostic) (os : List ω) :
    (verdictOf ds os).diagnostics = ds := by
  unfold verdictOf
  split
  · rename_i h
    exact (List.isEmpty_iff.1 h).symm
  · rfl

/-- Complaints can be split, if the outputs can. -/
theorem sameWork_verdictOf {ds ds' : List Diagnostic} {os os₁ os₂ : List ω}
    (h : ∀ x, os.foldl add x = os₂.foldl add (os₁.foldl add x)) :
    SameWork add [verdictOf (ds ++ ds') os] [verdictOf ds os₁, verdictOf ds' os₂] where
  calm := by
    have hcalm {l : List (Outcome ω)} (hl : ∀ o ∈ l, ∃ ds os, o = verdictOf ds os) : Calm l := by
      intro o ho
      obtain ⟨ds, os, rfl⟩ := hl o ho
      exact calm_verdictOf ds os
    refine iff_of_true (hcalm ?_) (hcalm ?_)
    · simp
    · simp
  diagnostics _ := by simp [diagnostics_verdictOf]
  outputs _ hnil x := by
    have hnil : ds = [] ∧ ds' = [] := by simpa [diagnostics_verdictOf] using hnil
    obtain ⟨rfl, rfl⟩ := hnil
    simpa [verdictOf, Outcome.outputs] using h x

section Chunks

variable {work : List α → Outcome ω}
  (hwork : ∀ a l, SameWork add [work (a :: l)] [work [a], work l])

include hwork

/-- Work on some elements comes to the same as work on each of them. -/
theorem sameWork_singles {l : List α} (hl : l ≠ []) :
    SameWork add [work l] (l.map fun a => work [a]) := by
  induction l with
  | nil => exact absurd rfl hl
  | cons a l ih =>
    cases l with
    | nil => exact .refl _
    | cons b l => exact (hwork a (b :: l)).trans ((SameWork.refl [work [a]]).append (ih nofun))

/-- Work in chunks of one size comes to the same as in chunks of another. -/
theorem sameWork_chunks (size size' : Nat) (l : List α) :
    SameWork add ((chunksOf size l).map work) ((chunksOf size' l).map work) := by
  have hsingles (size : Nat) :
      SameWork add ((chunksOf size l).map work) (l.map fun a => work [a]) := by
    have hpieces : SameWork add ((chunksOf size l).flatMap fun chunk => [work chunk])
        ((chunksOf size l).flatMap fun chunk => chunk.map fun a => work [a]) :=
      .flatMap fun chunk hc => sameWork_singles hwork (ne_nil_of_mem_chunksOf hc)
    rwa [← List.map_eq_flatMap, List.flatMap_def, ← List.map_flatten, flatten_chunksOf] at hpieces
  exact (hsingles size).trans (hsingles size').symm

end Chunks

end Pool

end TypedSheets
