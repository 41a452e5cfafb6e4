import TypedSheets.Check.All
import TypedSheets.Proofs.Collections
import TypedSheets.Proofs.Session.Asking

/-!
# Silent checks

A check that reports nothing has looked at each of its items and found nothing wrong with it. While
it looks, it makes requests to the session and nothing else, and so it keeps every condition that
the requests keep.

## Main definitions

* `Session.Respects` — every request to a session keeps a condition.
* `Check.PassedOn` — a property of attempts that the looking at items has if the requests have it.

## Main results

* `Check.asks_items` — looking at an item is made of requests.
* `Check.silent_items` — no item of a check without complaints has complaints.
* `Session.silent_checks` — when there are no complaints, no item of any check has some.
-/

namespace TypedSheets

open Recall

/-- Every request to a session keeps a condition. -/
def Session.Respects (s : Session) (I : Condition) : Prop :=
  ∀ r : Request, Keeps I (s.respond r)

variable {s : Session} {w : Workbook} {I : Condition}

/-! ### What the checks ask for -/

/-- Work made of requests keeps what all requests keep. -/
theorem Session.Asks.respects {α : Type} {P : Request → Prop} {c : Recall α} (h : s.Asks P c)
    (hs : s.Respects I) : Keeps I c :=
  h.keeps fun r _ => hs r

namespace Check

/-- A property that is passed on to the looking at items: results have it, work that is put together
from other work has it if the parts have it, and so do the requests that are made. -/
structure PassedOn (s : Session) (Q : {α : Type} → Attempt α → Prop) : Prop where
  /-- A result. -/
  pure {α : Type} (a : α) : Q (pure a : Attempt α)
  /-- Work, and what depends on its result. -/
  bind {α β : Type} {a : Attempt α} {f : α → Attempt β} (ha : Q a) (hf : ∀ x, Q (f x)) :
    Q (a >>= f)
  /-- A request for a root type. -/
  rootType (type : String) : Q (s.schemas.rootType type).result
  /-- A request for the value of a member. -/
  memberValue (enumName member : String) : Q (s.defs.enums.memberValue enumName member).result
  /-- Requests for the texts of columns. -/
  texts (uses : List RelationUse) : Q (usesFaults s uses)

namespace PassedOn

variable {Q : {α : Type} → Attempt α → Prop} (h : PassedOn s @Q)

include h

theorem mapM {ι α : Type} {f : ι → Attempt α} {l : List ι} (hf : ∀ i, Q (f i)) :
    Q (l.mapM f) := by
  induction l with
  | nil =>
    rw [List.mapM_nil]
    exact h.pure []
  | cons i l ih =>
    rw [List.mapM_cons]
    exact h.bind (hf i) fun a => h.bind ih fun as => h.pure _

theorem filterM {α : Type} {p : α → Attempt Bool} {l : List α} (hp : ∀ a, Q (p a)) :
    Q (l.filterM p) := by
  have haux (l taken : List α) : Q (l.filterAuxM p taken) := by
    induction l generalizing taken with
    | nil => exact h.pure _
    | cons a l ih =>
      rw [List.filterAuxM]
      exact h.bind (hp a) fun b => ih _
  exact h.bind (haux l []) fun _ => h.pure _

theorem hasEnumRoot (type : String) : Q (hasEnumRoot s type) := by
  refine h.bind (h.rootType type) fun r => ?_
  split
  · exact h.pure _
  · split <;> exact h.pure _

theorem tableKeys (t : Schema) : Q (tableKeys s w t) := by
  refine h.bind ?_ fun _ => h.pure _
  refine h.bind (h.mapM fun c => ?_) fun _ => h.pure _
  exact h.bind (h.hasEnumRoot c.type) fun _ => h.pure _

theorem enumFaults (e : String × EnumTable) : Q (enumFaults s e) := by
  refine h.bind (h.mapM fun m => ?_) fun _ => h.pure _
  unfold definitionFaults
  dsimp only
  split
  · exact h.pure _
  · split
    · refine h.bind (h.memberValue e.1 m.1) fun r => ?_
      cases r <;> exact h.pure _
    · exact h.pure _

theorem parameterFailures {q : Parameter}
    (hq : ∀ text, q.default = some text → Q (s.defs.cast q.type (.text text)).result) :
    Q (parameterFailures s q) := by
  unfold Check.parameterFailures
  split
  · exact h.pure _
  · split
    · rename_i hdefault
      refine h.bind (hq _ hdefault) fun r => ?_
      cases r <;> exact h.pure _
    · exact h.pure _

theorem parametersFaults (p : Prototype) (first : Option String) {qs : List Parameter}
    (hqs : ∀ q ∈ qs, ∀ text, q.default = some text →
      Q (s.defs.cast q.type (.text text)).result) : Q (parametersFaults s p first qs) := by
  induction qs generalizing first with
  | nil => exact h.pure _
  | cons q qs ih =>
    rw [List.forall_mem_cons] at hqs
    refine h.bind ?_ fun _ => h.bind (ih _ hqs.2) fun _ => h.pure _
    exact h.bind (h.parameterFailures hqs.1) fun _ => h.pure _

theorem typeFaults (type : String) : Q (typeFaults s type) := by
  unfold Check.typeFaults
  split
  · exact h.pure _
  · dsimp only
    split
    · exact h.pure _
    · refine h.bind (h.rootType type) fun r => ?_
      cases r <;> exact h.pure _

theorem columnTypes (t : Schema) : Q (columnTypes s w t) := by
  refine h.bind (h.mapM fun c => ?_) fun _ => h.pure _
  exact h.bind (h.typeFaults c.type) fun _ => h.pure _

theorem constType (c : Constant) : Q (constType s c) :=
  h.bind (h.typeFaults c.type) fun _ => h.pure _

theorem memberNumber (expr : TypeExpr) (member : String) : Q (memberNumber s expr member) := by
  unfold Check.memberNumber
  split
  · refine h.bind (h.memberValue _ member) fun r => ?_
    cases r <;> exact h.pure _
  · exact h.pure _

theorem isMentioned (expr : TypeExpr) (found : List String) (text : String) :
    Q (isMentioned s expr found text) := by
  unfold Check.isMentioned
  split
  · exact h.pure _
  · split
    · exact h.pure _
    · exact h.bind (h.memberNumber expr text) fun _ => h.pure _

theorem strongFaults (e : Schema × SchemaColumn) : Q (strongFaults s w e) := by
  refine h.bind (h.mapM fun expr => ?_) fun _ => h.pure _
  unfold partFaults
  split
  · exact h.pure _
  · refine h.bind (h.filterM fun text => ?_) fun _ => h.pure _
    exact h.bind (h.isMentioned expr _ text) fun _ => h.pure _

/-- What is passed on is true of the looking at every item, if it is true of the casts of default
texts. -/
theorem items (hdefault : ∀ p ∈ s.defs.prototypes.values, ∀ q ∈ p.params, ∀ text,
      q.default = some text → Q (s.defs.cast q.type (.text text)).result)
    {c : Check} (hc : c ∈ all) : ∀ item ∈ c.items s w, Q item := by
  intro item hitem
  simp only [all, List.mem_cons, List.not_mem_nil, or_false] at hc
  rcases hc with rfl | rfl | rfl | rfl | rfl | rfl | rfl
  · obtain ⟨e, -, rfl⟩ := List.mem_map.1 hitem
    exact h.pure _
  · rcases List.mem_append.1 hitem with hitem | hitem
    · obtain ⟨t, -, rfl⟩ := List.mem_map.1 hitem
      exact h.tableKeys t
    · cases List.mem_singleton.1 hitem
      exact h.pure _
  · obtain ⟨e, -, rfl⟩ := List.mem_map.1 hitem
    exact h.enumFaults e
  · obtain ⟨p, hp, rfl⟩ := List.mem_map.1 hitem
    exact h.parametersFaults p none (hdefault p hp)
  · rcases List.mem_append.1 hitem with hitem | hitem
    · obtain ⟨t, -, rfl⟩ := List.mem_map.1 hitem
      exact h.columnTypes t
    · obtain ⟨c, -, rfl⟩ := List.mem_map.1 hitem
      exact h.constType c
  · obtain ⟨uses, -, rfl⟩ := List.mem_map.1 hitem
    exact h.texts uses
  · obtain ⟨e, -, rfl⟩ := List.mem_map.1 hitem
    exact h.strongFaults e

end PassedOn

/-- Looking at an item of a check asks for whatever it likes. -/
abbrev Asks (s : Session) {α : Type} (a : Attempt α) : Prop :=
  Session.Asks s (fun _ => True) a.run

theorem asks_cast (type : String) (cell : Cell) : Asks s (s.defs.cast type cell).result :=
  .result (.request (.cast type cell) trivial)

/-- To be made of requests is passed on. -/
theorem passedOn_asks : PassedOn s (Asks s) where
  pure a := .done (Except.ok a)
  bind := .bind_run
  rootType type := .result (.request (.rootType type) trivial)
  memberValue enumName member := .result (.request (.memberValue enumName member) trivial)
  texts uses := by
    refine .lift (.bind (.mapM fun u => ?_) fun _ => .done _)
    exact .bind (.request (.realizedValues u.table u.column) trivial) fun _ => .done _

/-- Looking at an item of a check is made of requests. -/
theorem asks_items {c : Check} (hc : c ∈ all) : ∀ item ∈ c.items s w, Asks s item :=
  passedOn_asks.items (fun _ _ q _ _ _ => asks_cast q.type _) hc

theorem keeps_items (h : s.Respects I) {c : Check} (hc : c ∈ all) :
    ∀ item ∈ c.items s w, Keeps I item.run :=
  fun item hitem => (asks_items hc item hitem).respects h

/-! ### Checks without complaints -/

theorem keeps_examine {item : Attempt (List Diagnostic)} (h : Keeps I item.run) :
    Keeps I (examine item).run :=
  Keeps.bind_run h fun _ => Keeps.pure _

theorem keeps_report {c : Check} (h : ∀ item ∈ c.items s w, Keeps I item.run) :
    Keeps I (c.report s w) :=
  Keeps.bind (Pool.keeps_run fun item hitem => keeps_ofAttempt (keeps_examine (h item hitem)))
    fun _ => Keeps.pure _

/-- A clean outcome of looking at an item comes from an item without complaints. -/
theorem gives_nil_of_examine {item : Attempt (List Diagnostic)} {o : Outcome Unit}
    (h : Gives I (examine item).run (.ok o)) (hk : Keeps I item.run) (ho : o.Clean) :
    Gives I item.run (.ok []) := by
  obtain ⟨complaints, hitem, h⟩ := h.bind_ok hk
  have h := h.pure_ok
  cases complaints with
  | nil => exact hitem
  | cons d ds =>
    rw [← h] at ho
    cases ho

/-- No item of a check without complaints has complaints. -/
theorem silent_items {c : Check} (h : Gives I (c.report s w) (.ok []))
    (hk : ∀ item ∈ c.items s w, Keeps I item.run) :
    ∀ item ∈ c.items s w, Gives I item.run (.ok []) := by
  have hwork : ∀ item ∈ c.items s w, Keeps I (Outcome.ofAttempt (examine item)) :=
    fun item hitem => keeps_ofAttempt (keeps_examine (hk item hitem))
  obtain ⟨r, hr, h⟩ := Gives.bind (c := c.run s w) h (Pool.keeps_run hwork)
  have h := h.pure
  match r, h with
  | .ok outputs, _ =>
    obtain ⟨os, hos, hclean, -⟩ := hr.run_ok hwork
    intro item hitem
    obtain ⟨o, ho, hitem'⟩ := hos.exists_of_mem_left hitem
    exact gives_nil_of_examine (hitem'.ofAttempt (keeps_examine (hk item hitem)) (hclean o ho))
      (hk item hitem) (hclean o ho)
  | .error (.rejected complaints), h =>
    cases h
    obtain ⟨os, hos, hgather⟩ := hr.map
    exact absurd rfl (Pool.gather_rejected hgather)

end Check

namespace Session

theorem keeps_complaintsOf (h : s.Respects I) {cs : List Check} (hcs : ∀ c ∈ cs, c ∈ Check.all) :
    Keeps I (s.complaintsOf w cs).run := by
  induction cs with
  | nil => exact Keeps.pure _
  | cons c cs ih =>
    have hc := Check.keeps_report (Check.keeps_items (w := w) h (hcs c (List.mem_cons_self ..)))
    refine Keeps.bind_run (c := ExceptT.mk (c.report s w)) hc fun found => ?_
    exact Keeps.bind_run (ih fun c' hc' => hcs c' (List.mem_cons_of_mem c hc')) fun _ =>
      Keeps.pure _

/-- When there are no complaints, no item of any check has some. -/
theorem silent_checks (hs : s.Respects I) {cs : List Check} (hcs : ∀ c ∈ cs, c ∈ Check.all)
    (h : Gives I (s.complaintsOf w cs).run (.ok [])) :
    ∀ c ∈ cs, ∀ item ∈ c.items s w, Gives I item.run (.ok []) := by
  induction cs with
  | nil =>
    intro c hc
    cases hc
  | cons c cs ih =>
    have hcs' : ∀ c' ∈ cs, c' ∈ Check.all := fun c' hc' => hcs c' (List.mem_cons_of_mem c hc')
    have hitems := Check.keeps_items (w := w) hs (hcs c (List.mem_cons_self ..))
    obtain ⟨found, hfound, h⟩ :=
      Gives.bind_ok (c := ExceptT.mk (c.report s w)) h (Check.keeps_report hitems)
    obtain ⟨rest, hrest, h⟩ := h.bind_ok (keeps_complaintsOf hs hcs')
    obtain ⟨rfl, rfl⟩ := List.append_eq_nil_iff.1 h.pure_ok
    intro c' hc'
    rcases List.mem_cons.1 hc' with rfl | hc'
    · exact Check.silent_items hfound hitems
    · exact ih hcs' hrest c' hc'

end Session

end TypedSheets
