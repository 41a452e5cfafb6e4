import TypedSheets.Proofs.Casting.Bound
import TypedSheets.Proofs.Session.Asking

/-!
# What a session remembers makes no difference

Requests that share a memory are answered as if each were computed on its own, without a memory,
whatever has been asked before and in whatever order the steps of the requests are taken.

## Main definitions

* `Definitions.computed` — an answer to a question is the one that is computed.
* `Definitions.Agrees` — a request is answered as it is without a memory.

## Main results

* `Definitions.ensures_respond` — what a request ensures by itself.
* `Definitions.Reaches.transparent` — every request is answered as it is without a memory.
-/

namespace TypedSheets

open Recall

namespace Definitions

/-- An answer to a question is the one that is computed; the texts of columns are as admitted. -/
def computed (d : Definitions) (R : String → String → List String → Prop) : Condition
  | .root type, root => d.schemas.rootFrom [] type = .ok root
  | .cast type cell, v =>
    ∃ n, valueWith (fun sub => d.castPlain (parts sub) type cell) (d.freeValues n) = .ok v
  | .member enumName member, v => ∃ n, d.enums.memberValues enumName n member = .ok v
  | .realized table column, texts => R table column texts

/-- Every text of a column is admitted. -/
abbrev anyTexts (_ _ : String) (_ : List String) : Prop := True

theorem remembers_computed (d : Definitions) (R : String → String → List String → Prop) :
    d.Remembers (d.computed R) where
  roots _ _ := .rfl
  members _ _ _ := .rfl
  casts _ _ _ := .rfl

/-- A request is answered as it is without a memory. -/
def Agrees (d : Definitions) : (r : Request) → r.Answer → Prop
  | .cast type cell, a => a = (d.cast type cell).run.fresh
  | .rootType type, a => a = (d.schemas.rootType type).run.fresh
  | .memberValue enumName member, a => a = (d.enums.memberValue enumName member).run.fresh
  | .evaluate enumName text, a => a = (d.enums.evaluate enumName text).run.fresh
  | .realizedValues .., _ => True

variable {d : Definitions} {R : String → String → List String → Prop}

/-- A cast needs no memory: what it comes to with one is what it comes to without one, since the
bound on nested casts keeps neither from its end. -/
theorem plain_cast (type : String) (cell : Cell) :
    Plain (d.computed R) (d.cast type cell).run := by
  have hI := d.remembers_computed R
  have hlasts := values_lasts hI.toRemembersNames [] (type, cell)
  refine Ensures.mono (settled_castFrom hI (d.depthBound type cell) (d.clear_nil (type, cell)))
    fun r hr => ?_
  rcases hr with ⟨hne, depth, rfl⟩ | ⟨rfl, hlate⟩
  · exact hlasts.eq hne (cast_ends hI.toRemembersNames hne)
  · exact hlate.symm

/-- A request notes only what is computed, and is answered as it is without a memory. -/
theorem ensures_respond (s : Session) (hs : s.defs = d) (r : Request) :
    Ensures (d.computed anyTexts) (s.respond r) (d.Agrees r) := by
  subst hs
  have hI := s.defs.remembers_computed anyTexts
  cases r with
  | cast type cell => exact plain_cast type cell
  | rootType type => exact transparent_rootType hI.toRemembersNames type
  | memberValue enumName member => exact EnumTables.transparent_memberValue hI.members member
  | evaluate enumName text => exact EnumTables.transparent_evaluate hI.members text
  | realizedValues table column => exact ⟨⟨trivial, fun _ _ => trivial⟩, fun _ _ => trivial⟩

/-- What is remembered of a cell is what every cast that asks for it comes to by itself. -/
theorem cast_of_computed {type : String} {cell raw : Cell} {v : Value}
    (hv : d.computed R (.cast type cell) v) (hraw : raw.constRef? = none)
    (hcell : (d.settle type raw).run.fresh = .ok cell) :
    (d.cast type raw).run.fresh = .ok v := by
  have hI := d.remembers_computed R
  have hlasts := values_lasts hI.toRemembersNames [] (type, raw)
  obtain ⟨n, hn⟩ := (hI.cast_iff (d.clear_nil (type, raw)) hraw hcell v).1 hv
  have hvalue : d.values [] (n + 1) (type, raw) = .ok v := by
    rw [values_of_plain hI.toRemembersNames hraw, plainValue_of_ok hcell]
    exact hn
  have hne : d.values [] (n + 1) (type, raw) ≠ .error .endless := by
    rw [hvalue]
    exact nofun
  exact (hlasts.eq (cast_ends hI.toRemembersNames hne) hne).trans hvalue

/-- **What is remembered makes no difference.** Whatever workers have asked of sessions with the
same definitions, and in whatever order their steps were taken: a request that has been answered was
answered as it is without a memory, and one that is still being worked on will be, however long it
is interrupted. A value that is remembered, also one that was cast while constants were being
followed, is what every cast that asks for it comes to by itself. -/
theorem Reaches.transparent {tasks : List Task} {m : Memory} (h : d.Reaches tasks m) :
    (∀ type cell (c : Recall (Except Halt Value)), ⟨.cast type cell, c⟩ ∈ tasks →
      (c.run m).1 = (d.cast type cell).run.fresh) ∧
    (∀ type (c : Recall (Except Halt String)), ⟨.rootType type, c⟩ ∈ tasks →
      (c.run m).1 = (d.schemas.rootType type).run.fresh) ∧
    (∀ enumName member (c : Recall (Except Halt Int64)),
      ⟨.memberValue enumName member, c⟩ ∈ tasks →
      (c.run m).1 = (d.enums.memberValue enumName member).run.fresh) ∧
    (∀ enumName text (c : Recall (Except Halt EnumValue)),
      ⟨.evaluate enumName text, c⟩ ∈ tasks →
      (c.run m).1 = (d.enums.evaluate enumName text).run.fresh) ∧
    (∀ type cell v, m.get? (.cast type cell) = some v → ∀ raw : Cell, raw.constRef? = none →
      (d.settle type raw).run.fresh = .ok cell → (d.cast type raw).run.fresh = .ok v) := by
  obtain ⟨hm, htasks⟩ := h.ensured ensures_respond
  refine ⟨fun type cell c hc => ((htasks _ hc).run hm).1, fun type c hc => ((htasks _ hc).run hm).1,
    fun enumName member c hc => ((htasks _ hc).run hm).1,
    fun enumName text c hc => ((htasks _ hc).run hm).1, fun type cell v hv raw hraw hcell => ?_⟩
  exact cast_of_computed (hm _ v hv) hraw hcell

/-- Constants of which one is a number, one leads to it, and one leads back to itself. -/
def chained : Definitions where
  consts := Constants.ofList <|
    [("Five", "int", "5"), ("Same", "int", "Const:Numbers:Five"),
      ("Loop", "[int]", "1 & Const:Numbers:Loop")].map fun (name, type, value) =>
        { location := { file := "constants", sheet := "Numbers", row := none }, table := "Numbers",
          name, type, scope := .common, value := .text value }

/-- A cell that leads into a loop is cast first and a list of constants behind it, with one memory:
the cell fails with the loop and the list has its value, as each does by itself. -/
theorem chained_transparent :
    let loop := Request.cast "[int]" (.text "Const:Numbers:Loop")
    let list := Request.cast "[int]" (.text "Const:Numbers:Same & Const:Numbers:Five")
    ∃ tasks m v, chained.Reaches tasks m ∧ v.text = "5|5" ∧ ⟨list, .done (.ok v)⟩ ∈ tasks ∧
      ⟨loop, .done (.error (.failure
        (constantCycle [("Numbers", "Loop"), ("Numbers", "Loop")])))⟩ ∈ tasks := by
  intro loop list
  have hreach := (Reaches.start.answer { defs := chained } rfl loop).answer
    { defs := chained } rfl list
  obtain ⟨hcasts, -⟩ := hreach.transparent
  have hloop : (match (chained.cast "[int]" (.text "Const:Numbers:Loop")).run.fresh with
      | .error e => some e
      | .ok _ => none) =
      some (.failure (constantCycle [("Numbers", "Loop"), ("Numbers", "Loop")])) := by
    decide +kernel
  have hlist : (chained.cast "[int]"
      (.text "Const:Numbers:Same & Const:Numbers:Five")).run.fresh.toOption.map Value.text =
      some "5|5" := by
    decide +kernel
  cases hf : (chained.cast "[int]" (.text "Const:Numbers:Loop")).run.fresh with
  | ok v =>
    rw [hf] at hloop
    cases hloop
  | error e =>
    rw [hf] at hloop
    cases hloop
    cases hg : (chained.cast "[int]"
        (.text "Const:Numbers:Same & Const:Numbers:Five")).run.fresh with
    | error e =>
      rw [hg] at hlist
      cases hlist
    | ok v =>
      rw [hg] at hlist
      have hloop := hcasts "[int]" (.text "Const:Numbers:Loop") _
        (List.mem_cons_of_mem _ (List.mem_singleton.2 rfl))
      have hv := hcasts "[int]" (.text "Const:Numbers:Same & Const:Numbers:Five") _
        (List.mem_cons_self ..)
      refine ⟨_, _, v, hreach, Option.some.inj hlist, ?_, ?_⟩
      · rw [← hg, ← hv]
        exact List.mem_cons_self ..
      · rw [← hf, ← hloop]
        exact List.mem_cons_of_mem _ (List.mem_singleton.2 rfl)

end Definitions

/-- The condition on the memory of a session with data: every answer is the one that is computed. -/
def Session.exact (s : Session) : Condition :=
  s.defs.computed fun table column texts => texts = s.columnTexts table column

/-- Requests to a session with data need no memory. -/
theorem Session.plain_respond (s : Session) (r : Request) : Plain s.exact (s.respond r) := by
  have hI : s.defs.Remembers s.exact := s.defs.remembers_computed _
  cases r with
  | cast type cell => exact Definitions.plain_cast type cell
  | rootType type => exact Definitions.transparent_rootType hI.toRemembersNames type
  | memberValue enumName member => exact EnumTables.transparent_memberValue hI.members member
  | evaluate enumName text => exact EnumTables.transparent_evaluate hI.members text
  | realizedValues table column => exact ⟨⟨rfl, fun _ h => h⟩, fun _ h => h⟩

end TypedSheets
