import TypedSheets.Proofs.Relation.Terminal
import TypedSheets.Proofs.Session.Transparency

/-!
# Relations are cast as their root types

An annotation and its root type lead to the same text that is read, or to the same failure where it
is not. So a cell comes to the same under both: its text is kept or trimmed alike, its parts are
cast alike, and what it fails with names the same type. A cell that refers to a constant is cast
under the type of the constant under both.

## Main definitions

* `Definitions.ComesTo` — what a request comes to, in whatever session it is made.

## Main results

* `Schemas.rootRead_root` — a root type leads to what leads to it.
* `Definitions.fresh_cast_congr` — a cell is cast alike under annotations that are read alike.
* `Definitions.Reaches.cast_as_root` — an annotation is cast as its root type in every session.
-/

namespace TypedSheets

open Recall

/-- A root type is read as the annotation that it is the root type of. -/
theorem Schemas.rootRead_root {ss : Schemas} {type root : String}
    (h : ss.rootFrom [] type = .ok root) : ss.rootRead root = ss.rootRead type := by
  rw [rootRead, rootRead, h]
  cases hparse : TypeExpr.parse root with
  | ok e =>
    rw [rootFrom_root h hparse]
  | error f =>
    -- what the root type cannot be read for is what it fails with as an annotation
    rw [rootFrom, hparse]
    show _ = (TypeExpr.parse root).map _
    rw [hparse]
    rfl

namespace Definitions

variable {d : Definitions} {type type' root : String}

/-- A cell comes to the same at every depth under annotations that are read alike. -/
theorem values_congr_root {I : Condition} (hI : d.RemembersNames I)
    (h : d.schemas.rootRead type = d.schemas.rootRead type') (trail : Trail) (cell : Cell)
    (n : Nat) : d.values trail n (type, cell) = d.values trail n (type', cell) := by
  cases n with
  | zero => rfl
  | succ n =>
    cases hlink : cell.constRef? with
    | none =>
      rw [values_of_plain hI hlink, values_of_plain hI hlink, plainValue_congr_root h]
    | some link =>
      cases hc : d.consts.find? link with
      | none => rw [values_of_undefined hlink hc, values_of_undefined hlink hc]
      | some constant =>
        by_cases ht : link ∈ trail
        · rw [values_of_cycle hlink hc ht, values_of_cycle hlink hc ht]
        · rw [values_of_link hlink hc ht, values_of_link hlink hc ht]

/-- **A cell is cast alike under annotations that are read alike.** -/
theorem fresh_cast_congr (h : d.schemas.rootRead type = d.schemas.rootRead type') (cell : Cell) :
    (d.cast type cell).run.fresh = (d.cast type' cell).run.fresh :=
  have hI := (d.remembers_computed anyTexts).toRemembersNames
  cast_congr (x := (type, cell)) (y := (type', cell)) hI fun n =>
    values_congr_root hI h [] cell n

/-- Whenever a request is made, whatever has been asked before or is being asked at the same
time, it comes to `a`. -/
def ComesTo (d : Definitions) (r : Request) (a : r.Answer) : Prop :=
  ∀ tasks m, d.Reaches tasks m → ∀ c : Recall r.Answer, ⟨r, c⟩ ∈ tasks → (c.run m).1 = a

/-- Every request can be made. -/
theorem exists_reaches (d : Definitions) (r : Request) : ∃ tasks m, ∃ c : Recall r.Answer,
    d.Reaches tasks m ∧ ⟨r, c⟩ ∈ tasks :=
  ⟨_, _, _, Reaches.start.answer { defs := d } rfl r, List.mem_singleton_self _⟩

/-- What a request comes to is determined. -/
theorem ComesTo.unique {r : Request} {a b : r.Answer} (ha : d.ComesTo r a) (hb : d.ComesTo r b) :
    a = b := by
  obtain ⟨tasks, m, c, h, hc⟩ := exists_reaches d r
  exact (ha tasks m h c hc).symm.trans (hb tasks m h c hc)

theorem comesTo_cast (type : String) (cell : Cell) :
    d.ComesTo (.cast type cell) (d.cast type cell).run.fresh := by
  intro tasks m h c hc
  obtain ⟨hcasts, -⟩ := h.transparent
  exact hcasts type cell c hc

theorem comesTo_rootType (type : String) :
    d.ComesTo (.rootType type) ((d.schemas.rootFrom [] type).mapError .failure) := by
  intro tasks m h c hc
  obtain ⟨-, hroots, -⟩ := h.transparent
  exact (hroots type c hc).trans (fresh_rootType type)

/-- **A relation is cast as its root type.** Where a session has answered an annotation with a root
type, every cell, be it a reference to a constant or not, comes to the same value or to the same
failure under the annotation and under the root type, in whatever session with these definitions,
whatever it remembers, and however its requests are interleaved. The root type is its own root type
if it is read at all. -/
theorem Reaches.cast_as_root {tasks : List Task} {m : Memory} (h : d.Reaches tasks m)
    {c : Recall (Except Halt String)} (hc : ⟨.rootType type, c⟩ ∈ tasks)
    (hroot : (c.run m).1 = .ok root) :
    (∀ cell : Cell, ∃ a, d.ComesTo (.cast type cell) a ∧ d.ComesTo (.cast root cell) a) ∧
      ((∃ e, TypeExpr.parse root = .ok e) → d.ComesTo (.rootType root) (.ok root)) := by
  have hfrom : d.schemas.rootFrom [] type = .ok root := by
    have hsame := (comesTo_rootType type tasks m h c hc).symm.trans hroot
    cases hfound : d.schemas.rootFrom [] type with
    | ok found =>
      rw [hfound] at hsame
      cases hsame
      rfl
    | error f =>
      rw [hfound] at hsame
      cases hsame
  refine ⟨fun cell => ⟨_, comesTo_cast type cell, ?_⟩, ?_⟩
  · rw [← fresh_cast_congr (Schemas.rootRead_root hfrom)]
    exact comesTo_cast root cell
  · rintro ⟨e, he⟩
    have hself := comesTo_rootType (d := d) root
    rw [Schemas.rootFrom_root hfrom he] at hself
    exact hself

/-- Tables of which one leads to the other by a key, with blanks between the marks of the keys, and
a constant. -/
def zones : Definitions where
  schemas := Schemas.spacedKeys
  consts := Constants.ofList
    [{ location := { file := "constants", sheet := "Numbers", row := none }, table := "Numbers",
       name := "Five", type := "int", scope := .common, value := .text "5" }]

/-- A relation to the first table is stored as the key of the second, which is read with the blank
before its mark. A reference to the constant is cast alike under both. -/
theorem zones_cast_as_root : ∃ tasks m c a,
    zones.Reaches tasks m ∧ ⟨.rootType "$Zone", c⟩ ∈ tasks ∧ (c.run m).1 = .ok "int ?" ∧
    zones.ComesTo (.cast "$Zone" (.text "Const:Numbers:Five")) a ∧
    zones.ComesTo (.cast "int ?" (.text "Const:Numbers:Five")) a ∧
    a.toOption.map Value.text = some "5" ∧ zones.ComesTo (.rootType "int ?") (.ok "int ?") := by
  obtain ⟨tasks, m, c, hreach, hc⟩ := exists_reaches zones (.rootType "$Zone")
  have hfrom : zones.schemas.rootFrom [] "$Zone" = .ok "int ?" := by decide +kernel
  have hroot : (c.run m).1 = .ok "int ?" := by
    rw [comesTo_rootType "$Zone" tasks m hreach c hc, hfrom]
    rfl
  obtain ⟨hcasts, hself⟩ := hreach.cast_as_root hc hroot
  obtain ⟨a, ha, ha'⟩ := hcasts (.text "Const:Numbers:Five")
  refine ⟨tasks, m, c, a, hreach, hc, hroot, ha, ha', ?_,
    hself ⟨.primitive { nullable := true } .int32, by decide +kernel⟩⟩
  rw [ha.unique (comesTo_cast _ _)]
  decide +kernel

end Definitions

end TypedSheets
