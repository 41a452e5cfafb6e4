import TypedSheets.Proofs.Pool
import TypedSheets.Proofs.Session.Requests

/-!
# Work made of requests

The work of a compilation asks its session and computes at once what it makes of the answers. It
notes nothing by itself, so it keeps what the requests keep, and it ends as it does without a memory
if the requests do.

## Main definitions

* `Session.Asks` — a computation asks a session for nothing but some requests.
* `Recall.Plain` — a computation ends as it does without a memory.

## Main results

* `Session.Asks.keeps` — work made of requests keeps what the requests keep.
* `Session.Asks.plain` — work made of requests that need no memory needs none.
-/

namespace TypedSheets

open Recall

variable {α β ε ω : Type} {I : Condition}

/-- With every memory that meets the condition, a computation ends as it does without one. -/
def Recall.Plain (I : Condition) (c : Recall α) : Prop :=
  Ensures I c fun a => a = c.fresh

/-- What needs no memory, and then something that needs none, needs none together. -/
theorem Recall.Plain.bind {c : Recall α} {f : α → Recall β} (hc : Plain I c)
    (hf : ∀ a, Plain I (f a)) : Plain I (c >>= f) := by
  refine Ensures.bind hc fun a ha => (hf a).mono fun b hb => ?_
  rw [hb, fresh_bind, ha]

/-- A computation asks a session for nothing but some requests, and computes at once what it makes
of the answers. -/
inductive Session.Asks (s : Session) (P : Request → Prop) : {α : Type} → Recall α → Prop
  /-- Nothing is asked. -/
  | done {α : Type} (a : α) : Asks s P (.done a)
  /-- A request, and what depends on its answer. -/
  | ask {α : Type} (r : Request) (hr : P r) {f : r.Answer → Recall α}
    (hf : ∀ a, Asks s P (f a)) : Asks s P (s.respond r >>= f)

namespace Session.Asks

variable {s : Session} {P : Request → Prop}

/-- Work made of requests keeps what the requests keep. -/
theorem keeps {c : Recall α} (h : s.Asks P c) (hP : ∀ r, P r → Keeps I (s.respond r)) :
    Keeps I c := by
  induction h with
  | done a => exact Keeps.pure a
  | ask r hr _ ih => exact (hP r hr).bind ih

/-- Work made of requests that need no memory needs none. -/
theorem plain {c : Recall α} (h : s.Asks P c) (hP : ∀ r, P r → Plain I (s.respond r)) :
    Plain I c := by
  induction h with
  | done a => rfl
  | ask r hr _ ih => exact (hP r hr).bind ih

/-! ### Putting work together -/

theorem pure (a : α) : s.Asks P (Pure.pure a : Recall α) := done a

theorem request (r : Request) (hr : P r) : s.Asks P (s.respond r) := by
  have h := ask r hr (s := s) (f := Recall.done) fun a => done a
  rwa [show s.respond r >>= Recall.done = s.respond r from bind_done _] at h

theorem bind {c : Recall α} {f : α → Recall β} (hc : s.Asks P c) (hf : ∀ a, s.Asks P (f a)) :
    s.Asks P (c >>= f) := by
  induction hc with
  | done a => exact hf a
  | ask r hr _ ih =>
    rw [bind_assoc]
    exact ask r hr fun a => ih a

theorem map {c : Recall α} {f : α → β} (h : s.Asks P c) : s.Asks P (f <$> c) := by
  rw [← bind_pure_comp]
  exact h.bind fun a => pure (f a)

theorem bind_run {c : ExceptT ε Recall α} {f : α → ExceptT ε Recall β} (h : s.Asks P c.run)
    (hf : ∀ a, s.Asks P (f a).run) : s.Asks P (c >>= f).run := by
  refine bind (c := c.run) (f := ExceptT.bindCont f) h fun r => ?_
  cases r with
  | ok a => exact hf a
  | error e => exact done _

theorem mapM {ι : Type} {f : ι → Recall α} {l : List ι} (h : ∀ i, s.Asks P (f i)) :
    s.Asks P (l.mapM f) := by
  induction l with
  | nil =>
    rw [List.mapM_nil]
    exact done _
  | cons i l ih =>
    rw [List.mapM_cons]
    exact (h i).bind fun a => ih.bind fun as => done _

theorem mapM_run {ι : Type} {f : ι → ExceptT ε Recall α} {l : List ι}
    (h : ∀ i, s.Asks P (f i).run) : s.Asks P (l.mapM f).run := by
  induction l with
  | nil =>
    rw [List.mapM_nil]
    exact done _
  | cons i l ih =>
    rw [List.mapM_cons]
    exact bind_run (h i) fun a => bind_run ih fun as => done _

theorem result {a : Attempt α} (h : s.Asks P a.run) : s.Asks P a.result.run := by
  refine bind (c := a.run) h fun r => ?_
  exact done _

theorem lift {c : Recall α} (h : s.Asks P c) :
    s.Asks P (ExceptT.lift c : ExceptT ε Recall α).run :=
  map h

theorem ofAttempt {a : Attempt (Outcome ω)} (h : s.Asks P a.run) :
    s.Asks P (Outcome.ofAttempt a) :=
  bind (c := a.run) h fun _ => done _

end Session.Asks

end TypedSheets
