import TypedSheets.Proofs.Casting.Bound
import TypedSheets.Proofs.Casting.Halting
import TypedSheets.Proofs.Session.Transparency

/-!
# Casts that come to an end

On the way inward a cast goes from a cell to its parts, and from a reference to the constant. The
trail of constants that are being followed grows with each of them, and none is followed twice; so
constants alone keep no cast from its end, however they refer to each other. What can keep it are
types and the defaults of parameters that recurse.

## Main definitions

* `Definitions.Grounded` — types and defaults do not recurse without end.
* `Definitions.EndsAt` — the cast of a cell comes to an end while constants are being followed.
* `Definitions.Encloses` — an annotation stands in the stored type of another one.

## Main results

* `Definitions.Grounded.cast_ends` — in grounded definitions every cast comes to an end.
* `Definitions.grounded_of_types` — definitions are grounded if their types do not recurse, and what
  stands in the defaults of parameters comes to an end.
-/

namespace TypedSheets.Definitions

open Recall

variable {I : Condition} {d : Definitions}

/-- A part of a cell that refers to no constant. -/
def PlainPart (d : Definitions) (x y : Slot) : Prop :=
  x.2.constRef? = none ∧ d.Part x y

/-- Types and the defaults of parameters do not recurse without end: from no cell do parts lead on
and on, without a reference to a constant on the way. -/
def Grounded (d : Definitions) : Prop :=
  WellFounded fun y x => d.PlainPart x y

/-! ### The ends of casts -/

/-- While constants are being followed, all of them but `k` at least, the cast of a cell comes to an
end. -/
def EndsAt (d : Definitions) (k : Nat) (x : Slot) : Prop :=
  ∀ trail : Trail, d.Followed trail → d.consts.size ≤ trail.length + k →
    ∃ n, d.values trail n x ≠ .error .endless

/-- Finitely many casts that come to an end do so within one depth. -/
theorem exists_depth (hI : d.RemembersNames I) {trail : Trail} (S : List Slot)
    (h : ∀ y ∈ S, ∃ n, d.values trail n y ≠ .error .endless) :
    ∃ n, ∀ y ∈ S, d.values trail n y ≠ .error .endless := by
  induction S with
  | nil => exact ⟨0, fun y hy => absurd hy List.not_mem_nil⟩
  | cons x S ih =>
    rw [List.forall_mem_cons] at h
    obtain ⟨n, hn⟩ := h.1
    obtain ⟨m, hm⟩ := ih h.2
    refine ⟨max n m, List.forall_mem_cons.2 ⟨?_, fun y hy => ?_⟩⟩
    · rwa [(values_lasts hI trail x).le (Nat.le_max_left n m) hn]
    · rw [(values_lasts hI trail y).le (Nat.le_max_right n m) (hm y hy)]
      exact hm y hy

/-- The cast of a cell comes to an end if those of its parts do, and those of constants while one
more of them is being followed. -/
theorem endsAt_of_parts (hI : d.RemembersNames I) {k : Nat} {x : Slot}
    (hconsts : ∀ j < k, ∀ c ∈ d.consts.values, d.EndsAt j (c.type, c.value))
    (hparts : ∀ y, d.PlainPart x y → d.EndsAt k y) : d.EndsAt k x := by
  intro trail htrail hk
  cases hlink : x.2.constRef? with
  | some link =>
    cases hconst : d.consts.find? link with
    | none =>
      refine ⟨1, ?_⟩
      rw [values_of_undefined hlink hconst]
      exact nofun
    | some constant =>
      by_cases hmem : link ∈ trail
      · refine ⟨1, ?_⟩
        rw [values_of_cycle hlink hconst hmem]
        exact nofun
      · have htrail' := htrail.concat hconst hmem
        have hroom := htrail'.length_le
        rw [List.length_append, List.length_singleton] at hroom
        obtain ⟨n, hn⟩ := hconsts (k - 1) (by omega) constant (Keyed.mem_values_of_find? hconst)
          _ htrail' (by rw [List.length_append, List.length_singleton]; omega)
        refine ⟨n + 1, ?_⟩
        rwa [values_of_link hlink hconst hmem]
  | none =>
    classical
    have hinside : ∀ y ∈ (d.slots x.1 x.2).filter fun y => d.Part x y,
        ∃ n, d.values trail n y ≠ .error .endless := by
      intro y hy
      have hy : d.Part x y := by simpa using (List.mem_filter.1 hy).2
      exact hparts y ⟨hlink, hy⟩ trail htrail hk
    obtain ⟨n, hn⟩ := exists_depth hI _ hinside
    refine ⟨n + 1, ?_⟩
    rw [values_of_plain hI hlink]
    refine fun hend => absurd rfl (errorsIn_plainValue (P := (· ≠ .endless)) ?_ ?_ ?_ _ hend)
    · exact fun f _ => nofun
    · exact fun _ => nofun
    · intro y hy e he hendless
      subst hendless
      have hmem : y ∈ d.slots x.1 x.2 :=
        (closed_slots x.1 x.2).part _ (mem_slots_self d x.1 x.2) y hy
      exact hn y (List.mem_filter.2 ⟨hmem, by simpa using hy⟩) he

/-- In grounded definitions the cast of every cell comes to an end, whatever constants are being
followed.

**Proof sketch.** By induction on the constants that are not being followed yet, and for as many of
them by induction on the parts. -/
theorem Grounded.endsAt (hg : d.Grounded) (hI : d.RemembersNames I) (k : Nat) (x : Slot) :
    d.EndsAt k x := by
  induction k using Nat.strongRecOn generalizing x with
  | ind k ihk =>
    induction x using hg.induction with
    | h x ihx => exact endsAt_of_parts hI (fun j hj c _ => ihk j hj (c.type, c.value)) ihx

/-- **In grounded definitions every cast comes to an end**, whatever constants refer to. -/
theorem Grounded.cast_ends (hg : d.Grounded) (type : String) (cell : Cell) :
    (d.cast type cell).run.fresh ≠ .error .endless := by
  have hI := (d.remembers_computed anyTexts).toRemembersNames
  obtain ⟨n, hn⟩ := hg.endsAt hI d.consts.size (type, cell) [] .nil (Nat.le_add_left _ _)
  exact Definitions.cast_ends hI hn

/-! ### Grounded definitions -/

/-- An annotation stands in the stored type of another one. -/
def Encloses (d : Definitions) (outer inner : String) : Prop :=
  ∃ expr, d.StoredAs outer expr ∧ ∃ e ∈ expr.components, inner = e.text

/-- A date has no parts. -/
theorem not_part_dateTime {cell : Cell} {y : Slot} : ¬ d.Part ("DateTime", cell) y :=
  not_part_of_primitive (d.storedAs_plain (e := .primitive {} .dateTime) rfl rfl (by decide))
    (by decide) (by decide)

/-- **Definitions are grounded if their types do not recurse, and what stands in the defaults of
parameters comes to an end.**

**Proof sketch.** By induction on the length of the text, and for one length by induction on the
annotation: the arguments of a call are shorter than its text, and the texts of all other parts are
no longer, but their annotations stand inside the type of the whole. -/
theorem grounded_of_types (htypes : WellFounded fun inner outer => d.Encloses outer inner)
    (hdefaults : ∀ p ∈ d.prototypes.values, ∀ q ∈ p.params, ∀ text, q.default = some text →
      Acc (fun y x => d.PlainPart x y) (q.type, .text text)) : d.Grounded := by
  have hslots (n : Nat) (type : String) (cell : Cell) (hn : cell.display.length ≤ n) :
      Acc (fun y x => d.PlainPart x y) (type, cell) := by
    induction n using Nat.strongRecOn generalizing type cell with
    | ind n ihn =>
      induction type using htypes.induction generalizing cell with
      | h type iht =>
        refine ⟨_, fun y hy => ?_⟩
        rcases hy.2.text_cases with ⟨s, hs, hinside, hless⟩ | ⟨p, hp, q, hq, s, hdefault, rfl⟩
        · have hlength : s.length ≤ cell.display.length := by
            rw [← String.length_toList, ← String.length_toList]
            exact hinside.length_le
          obtain ⟨type', cell'⟩ := y
          subst hs
          rcases hy.2.type_cases with ⟨expr, hexpr, a, ha, htype⟩ | ⟨-, rfl⟩ | ⟨hcall, -⟩
          · exact iht type' ⟨expr, hexpr, a, ha, htype⟩ (.text s) (hlength.trans hn)
          · exact ⟨_, fun z hz => absurd hz.2 not_part_dateTime⟩
          · exact ihn s.length (Nat.lt_of_lt_of_le (hless hcall) hn) type' (.text s)
              (Nat.le_refl _)
        · exact hdefaults p hp q hq s hdefault
  exact ⟨fun x => hslots _ x.1 x.2 (Nat.le_refl _)⟩

end TypedSheets.Definitions
