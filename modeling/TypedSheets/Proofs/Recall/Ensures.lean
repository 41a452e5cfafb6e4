import TypedSheets.Proofs.Collections
import TypedSheets.Session.Memory

/-!
# Computations under a condition on the memory

A computation asks the memory of its session and notes what it finds. What it brings about is said
for every memory whose answers meet a condition: the computation notes only answers that meet the
condition again, and its result has a property. Such statements compose along binds, so a fact about
a whole compilation is put together from facts about the single requests.

## Main definitions

* `Condition` — a condition on the answers that may be remembered.
* `Memory.Meets` — every remembered answer meets the condition.
* `Recall.Ensures` — every answer noted meets the condition, and the result has a property.
* `Recall.Keeps` — every answer noted meets the condition.
* `Recall.Gives` — a result that a computation has with some memory that meets the condition.
* `Recall.Yields` — the result of a computation that may fail has a property unless it fails.

## Main results

* `Recall.Ensures.run` — what is ensured holds after a run, and so does the condition.
* `Recall.Ensures.bind`, `Recall.Yields.bind` — computations one after the other.
* `Recall.Gives.bind`, `Recall.Gives.bind_ok` — the way back from a result to its parts.
-/

namespace TypedSheets

/-- A condition on the answers that may be remembered. -/
abbrev Condition := (q : Query) → q.Answer → Prop

/-- Every remembered answer meets the condition. -/
def Memory.Meets (m : Memory) (I : Condition) : Prop :=
  ∀ q a, m.get? q = some a → I q a

namespace Memory

variable {I J : Condition}

/-- Nothing is remembered at the start. -/
theorem get?_empty (q : Query) : ({} : Memory).get? q = none := by
  cases q <;> simp [get?]

/-- The memory at the start meets every condition. -/
theorem meets_empty (I : Condition) : ({} : Memory).Meets I := by
  intro q a h
  rw [get?_empty] at h
  cases h

/-- Noting an answer that meets the condition keeps the memory in it. -/
theorem Meets.note {m : Memory} (hm : m.Meets I) {q : Query} {a : q.Answer} (ha : I q a) :
    (m.note q a).Meets I := by
  intro q' a' h
  by_cases hq : q = q'
  · subst hq
    rw [get?_note_self] at h
    cases h
    exact ha
  · rw [get?_note_of_ne m a hq] at h
    exact hm q' a' h

/-- The answer that counts meets the condition if the one offered does. -/
theorem Meets.offer {m : Memory} (hm : m.Meets I) {q : Query} {a : q.Answer} (ha : I q a) :
    I q (m.offer q a).1 ∧ (m.offer q a).2.Meets I := by
  unfold Memory.offer
  split
  · rename_i b _ hb
    exact ⟨hm q b hb, hm⟩
  · exact ⟨ha, hm.note ha⟩

/-- A memory that meets a condition meets a weaker one. -/
theorem Meets.mono {m : Memory} (hm : m.Meets I) (h : ∀ q a, I q a → J q a) : m.Meets J :=
  fun q a ha => h q a (hm q a ha)

end Memory

namespace Recall

variable {α β ε : Type} {I : Condition}

/-! ### Ensuring -/

/-- With answers that meet the condition, a computation notes only such answers, and its result has
a property. -/
def Ensures (I : Condition) : Recall α → (α → Prop) → Prop
  | done a, Q => Q a
  | ask q next, Q => Ensures I (next none) Q ∧ ∀ a, I q a → Ensures I (next (some a)) Q
  | note q a next, Q => I q a ∧ ∀ b, I q b → Ensures I (next b) Q

/-- With answers that meet the condition, a computation notes only such answers. -/
def Keeps (I : Condition) (c : Recall α) : Prop :=
  Ensures I c fun _ => True

/-- The result of a computation that may fail has a property unless it fails. -/
def Yields (I : Condition) (c : ExceptT ε Recall α) (Q : α → Prop) : Prop :=
  Ensures I c.run fun r => ∀ a, r = .ok a → Q a

/-- A result that a computation has with some memory that meets the condition. -/
def Gives (I : Condition) (c : Recall α) (a : α) : Prop :=
  ∃ m : Memory, m.Meets I ∧ (c.run m).1 = a

theorem Ensures.mono {c : Recall α} {P Q : α → Prop} (h : Ensures I c P) (hPQ : ∀ a, P a → Q a) :
    Ensures I c Q := by
  induction c with
  | done a => exact hPQ a h
  | ask q next ih => exact ⟨ih none h.1, fun a ha => ih (some a) (h.2 a ha)⟩
  | note q a next ih => exact ⟨h.1, fun b hb => ih b (h.2 b hb)⟩

/-- What is ensured holds of the result without a memory. -/
theorem Ensures.fresh {c : Recall α} {Q : α → Prop} (h : Ensures I c Q) : Q c.fresh := by
  induction c with
  | done a => exact h
  | ask q next ih => exact ih none h.1
  | note q a next ih => exact ih a (h.2 a h.1)

theorem Ensures.keeps {c : Recall α} {Q : α → Prop} (h : Ensures I c Q) : Keeps I c :=
  h.mono fun _ _ => trivial

/-- What is ensured of a computation and then of what follows it is ensured of both. -/
theorem Ensures.bind {c : Recall α} {f : α → Recall β} {P : α → Prop} {Q : β → Prop}
    (h : Ensures I c P) (hf : ∀ a, P a → Ensures I (f a) Q) : Ensures I (c >>= f) Q := by
  change Ensures I (c.bind f) Q
  induction c with
  | done a => exact hf a h
  | ask q next ih => exact ⟨ih none h.1, fun a ha => ih (some a) (h.2 a ha)⟩
  | note q a next ih => exact ⟨h.1, fun b hb => ih b (h.2 b hb)⟩

/-- After a run with a memory that meets the condition, the result is as ensured and the memory
meets the condition. -/
theorem Ensures.run {c : Recall α} {Q : α → Prop} (h : Ensures I c Q) {m : Memory}
    (hm : m.Meets I) : Q (c.run m).1 ∧ (c.run m).2.Meets I := by
  induction c generalizing m with
  | done a => exact ⟨h, hm⟩
  | ask q next ih =>
    cases hq : m.get? q with
    | none =>
      simp only [Recall.run, hq]
      exact ih none h.1 hm
    | some a =>
      simp only [Recall.run, hq]
      exact ih (some a) (h.2 a (hm q a hq)) hm
  | note q a next ih =>
    obtain ⟨ha, hm'⟩ := hm.offer h.1
    exact ih _ (h.2 _ ha) hm'

theorem Keeps.pure (a : α) : Keeps I (Pure.pure a : Recall α) := trivial

theorem Keeps.bind {c : Recall α} {f : α → Recall β} (h : Keeps I c) (hf : ∀ a, Keeps I (f a)) :
    Keeps I (c >>= f) :=
  Ensures.bind h fun a _ => hf a

theorem Keeps.map {c : Recall α} {f : α → β} (h : Keeps I c) : Keeps I (f <$> c) := by
  rw [← bind_pure_comp]
  exact h.bind fun _ => Keeps.pure _

theorem Keeps.mapM {ι : Type} {f : ι → Recall α} {l : List ι} (h : ∀ i ∈ l, Keeps I (f i)) :
    Keeps I (l.mapM f) := by
  induction l with
  | nil =>
    rw [List.mapM_nil]
    exact Keeps.pure _
  | cons i l ih =>
    rw [List.mapM_cons]
    refine (h i (List.mem_cons_self ..)).bind fun a => ?_
    exact (ih fun j hj => h j (List.mem_cons_of_mem i hj)).bind fun as => Keeps.pure _

theorem Ensures.map {c : Recall α} {f : α → β} {Q : β → Prop} (h : Ensures I c fun a => Q (f a)) :
    Ensures I (f <$> c) Q := by
  rw [← bind_pure_comp]
  exact h.bind fun _ ha => ha

/-- What is ensured of single computations is ensured of their results in a list. -/
theorem Ensures.mapM {ι : Type} {f : ι → Recall α} {P : ι → α → Prop} {l : List ι}
    (h : ∀ i ∈ l, Ensures I (f i) (P i)) : Ensures I (l.mapM f) (List.Forall₂ P l) := by
  induction l with
  | nil =>
    rw [List.mapM_nil]
    exact .nil
  | cons i l ih =>
    rw [List.mapM_cons]
    refine (h i (List.mem_cons_self ..)).bind fun a ha => ?_
    refine (ih fun j hj => h j (List.mem_cons_of_mem i hj)).bind fun as has => ?_
    exact .cons ha has

/-! ### Running in sequence -/

/-- A bind runs its two parts one after the other. -/
theorem run_bind (c : Recall α) (f : α → Recall β) (m : Memory) :
    (c >>= f).run m = (f (c.run m).1).run (c.run m).2 := by
  change (c.bind f).run m = _
  induction c generalizing m with
  | done a => rfl
  | ask q next ih => exact ih (m.get? q) m
  | note q a next ih => exact ih (m.offer q a).1 (m.offer q a).2

theorem run_map (f : α → β) (c : Recall α) (m : Memory) :
    (f <$> c).run m = (f (c.run m).1, (c.run m).2) := by
  rw [← bind_pure_comp, run_bind]
  rfl

/-- A result of a computation has the property that is ensured. -/
theorem Gives.ensured {c : Recall α} {a : α} {Q : α → Prop} (h : Gives I c a)
    (hc : Ensures I c Q) : Q a := by
  obtain ⟨m, hm, rfl⟩ := h
  exact (hc.run hm).1

/-- A result of a bind is a result of its second part behind a result of its first. -/
theorem Gives.bind {c : Recall α} {f : α → Recall β} {b : β} (h : Gives I (c >>= f) b)
    (hc : Keeps I c) : ∃ a, Gives I c a ∧ Gives I (f a) b := by
  obtain ⟨m, hm, hb⟩ := h
  rw [run_bind] at hb
  exact ⟨_, ⟨m, hm, rfl⟩, _, (Ensures.run hc hm).2, hb⟩

theorem Gives.map {c : Recall α} {f : α → β} {b : β} (h : Gives I (f <$> c) b) :
    ∃ a, Gives I c a ∧ f a = b := by
  obtain ⟨m, hm, hb⟩ := h
  rw [run_map] at hb
  exact ⟨_, ⟨m, hm, rfl⟩, hb⟩

theorem Gives.pure {a b : α} (h : Gives I (Pure.pure a) b) : a = b := by
  obtain ⟨m, -, hb⟩ := h
  exact hb

/-! ### Computations that may fail -/

theorem Yields.mono {c : ExceptT ε Recall α} {P Q : α → Prop} (h : Yields I c P)
    (hPQ : ∀ a, P a → Q a) : Yields I c Q :=
  Ensures.mono h fun _ hr a ha => hPQ a (hr a ha)

theorem Yields.keeps {c : ExceptT ε Recall α} {Q : α → Prop} (h : Yields I c Q) : Keeps I c.run :=
  Ensures.keeps h

theorem Keeps.yields {c : ExceptT ε Recall α} (h : Keeps I c.run) : Yields I c fun _ => True :=
  Ensures.mono h fun _ _ _ _ => trivial

theorem yields_pure {a : α} {Q : α → Prop} (h : Q a) :
    Yields I (pure a : ExceptT ε Recall α) Q := by
  intro b hb
  cases hb
  exact h

theorem yields_throw {e : ε} {Q : α → Prop} : Yields I (throw e : ExceptT ε Recall α) Q := by
  intro b hb
  cases hb

/-- What a computation yields is what the one behind it may count on. -/
theorem Yields.bind {c : ExceptT ε Recall α} {f : α → ExceptT ε Recall β} {P : α → Prop}
    {Q : β → Prop} (h : Yields I c P) (hf : ∀ a, P a → Yields I (f a) Q) :
    Yields I (c >>= f) Q := by
  refine Ensures.bind (c := c.run) (f := ExceptT.bindCont f) h fun r hr => ?_
  cases r with
  | ok a => exact hf a (hr a rfl)
  | error e =>
    intro b hb
    cases hb

theorem Yields.map {c : ExceptT ε Recall α} {f : α → β} {Q : β → Prop}
    (h : Yields I c fun a => Q (f a)) : Yields I (f <$> c) Q := by
  rw [← bind_pure_comp]
  exact h.bind fun a ha => yields_pure ha

/-- A list of computations yields a list of results, each with the property of its own. -/
theorem yields_mapM {ι : Type} {f : ι → ExceptT ε Recall α} {P : ι → α → Prop} {l : List ι}
    (h : ∀ i ∈ l, Yields I (f i) (P i)) : Yields I (l.mapM f) (List.Forall₂ P l) := by
  induction l with
  | nil =>
    rw [List.mapM_nil]
    exact yields_pure .nil
  | cons i l ih =>
    rw [List.mapM_cons]
    refine (h i (List.mem_cons_self ..)).bind fun a ha => ?_
    refine (ih fun j hj => h j (List.mem_cons_of_mem i hj)).bind fun as has => ?_
    exact yields_pure (.cons ha has)

/-- Every result of a list of computations has the property of one of them. -/
theorem yields_mapM_mem {ι : Type} {f : ι → ExceptT ε Recall α} {P : ι → α → Prop} {l : List ι}
    (h : ∀ i ∈ l, Yields I (f i) (P i)) :
    Yields I (l.mapM f) fun as => ∀ a ∈ as, ∃ i ∈ l, P i a :=
  (yields_mapM h).mono fun _ has _ ha => has.exists_of_mem_right ha

/-- A successful result of a bind is a successful result of its second part behind one of its
first. -/
theorem Gives.bind_ok {c : ExceptT ε Recall α} {f : α → ExceptT ε Recall β} {b : β}
    (h : Gives I (c >>= f).run (.ok b)) (hc : Keeps I c.run) :
    ∃ a, Gives I c.run (.ok a) ∧ Gives I (f a).run (.ok b) := by
  obtain ⟨r, hr, hb⟩ := Gives.bind (c := c.run) h hc
  cases r with
  | ok a => exact ⟨a, hr, hb⟩
  | error e => cases hb.pure

theorem Gives.pure_ok {a b : α} (h : Gives I (Pure.pure a : ExceptT ε Recall α).run (.ok b)) :
    a = b := by
  cases Gives.pure h
  rfl

/-- The results of a list of computations are results of the single ones. -/
theorem Gives.mapM {ι : Type} {f : ι → Recall α} {l : List ι} {as : List α}
    (h : Gives I (l.mapM f) as) (hf : ∀ i ∈ l, Keeps I (f i)) :
    List.Forall₂ (fun i a => Gives I (f i) a) l as := by
  induction l generalizing as with
  | nil =>
    rw [List.mapM_nil] at h
    cases h.pure
    exact .nil
  | cons i l ih =>
    rw [List.mapM_cons] at h
    obtain ⟨a, ha, h⟩ := h.bind (hf i (List.mem_cons_self ..))
    obtain ⟨as', has', h⟩ := h.bind (Keeps.mapM fun j hj => hf j (List.mem_cons_of_mem i hj))
    cases h.pure
    exact .cons ha (ih has' fun j hj => hf j (List.mem_cons_of_mem i hj))

end Recall

end TypedSheets
