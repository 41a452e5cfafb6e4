import Mathlib.Data.List.Nodup
import TypedSheets.Proofs.Casting.Confined

/-!
# The depth of a cast

On the way inward a cast that comes to an end meets no cell under one annotation twice while the
same constants are being followed. So it is no deeper than there are such cells, as often as there
are constants.

## Main definitions

* `Definitions.Closed` — cells under annotations that casts do not lead out of.
* `Definitions.Followed` — constants that are being followed.

## Main results

* `Definitions.depth_le` — how deep a cast is that comes to an end.
* `Definitions.ends_of_closed` — a cast that comes to an end does so within that depth.
-/

namespace TypedSheets.Definitions

open Recall

variable {I : Condition} {d : Definitions}

/-- Casts do not lead out of some cells under annotations. -/
structure Closed (d : Definitions) (S : List Slot) : Prop where
  /-- Parts. -/
  part : ∀ x ∈ S, ∀ y, d.Part x y → y ∈ S
  /-- Constants. -/
  const : ∀ link constant, d.consts.find? link = some constant →
    (constant.type, constant.value) ∈ S

/-- Constants that are being followed: all of them are defined, and none is followed twice. -/
structure Followed (d : Definitions) (trail : Trail) : Prop where
  nodup : trail.Nodup
  subset : trail ⊆ d.consts.keys

namespace Followed

variable {trail : Trail}

theorem nil : d.Followed [] := ⟨.nil, List.nil_subset _⟩

/-- One more constant can be followed. -/
theorem concat (h : d.Followed trail) {link : String × String} {constant : Constant}
    (hconst : d.consts.find? link = some constant) (hnew : link ∉ trail) :
    d.Followed (trail ++ [link]) where
  nodup := by
    rw [← List.concat_eq_append]
    exact h.nodup.concat hnew
  subset := List.append_subset.2
    ⟨h.subset, List.cons_subset.2 ⟨Keyed.mem_keys_of_find? hconst, List.nil_subset _⟩⟩

/-- No more constants are followed than there are. -/
theorem length_le (h : d.Followed trail) : trail.length ≤ d.consts.size := by
  rw [← Keyed.length_keys]
  exact (List.subperm_of_subset h.nodup h.subset).length_le

end Followed

section Late

variable {trail : Trail} {n : Nat} {x : Slot}

theorem endless_of_succ (hI : d.RemembersNames I)
    (h : d.values trail (n + 1) x = .error .endless) : d.values trail n x = .error .endless := by
  by_contra hne
  exact hne ((values_lasts hI trail x n hne).symm.trans h)

/-- If a cell needs a depth, one of its parts needs a depth that is smaller by one. -/
theorem exists_late_part (hI : d.RemembersNames I) (hx : x.2.constRef? = none)
    (hlate : d.values trail (n + 1) x = .error .endless)
    (hends : d.values trail (n + 2) x ≠ .error .endless) :
    ∃ y, d.Part x y ∧ d.values trail n y = .error .endless ∧
      d.values trail (n + 1) y ≠ .error .endless := by
  by_contra hnone
  push Not at hnone
  rw [values_of_plain hI hx] at hlate hends
  refine hends ((plainValue_congr fun y hy => ?_).trans hlate)
  by_cases hy' : d.values trail n y = .error .endless
  · rw [hy', hnone y hy hy']
  · exact values_lasts hI trail y n hy'

end Late

/-- **How deep a cast is that comes to an end.** The cells `V` stand around the cell, and all of
them need a greater depth than `n`, while the constants of the trail are being followed. -/
theorem depth_le (hI : d.RemembersNames I) {S : List Slot} (hS : d.Closed S) {n : Nat}
    {trail : Trail} {V : List Slot} {x : Slot} (htrail : d.Followed trail) (hV : (x :: V).Nodup)
    (hVS : x :: V ⊆ S) (hlate : ∀ y ∈ x :: V, d.values trail n y = .error .endless)
    (hends : d.values trail (n + 1) x ≠ .error .endless) :
    n + 1 + V.length ≤ (d.consts.size - trail.length) * S.length + S.length := by
  have hlength : V.length + 1 ≤ S.length := (List.subperm_of_subset hV hVS).length_le
  induction n generalizing trail V x with
  | zero => omega
  | succ n ih =>
    have hx := hlate x (List.mem_cons_self ..)
    cases hlink : x.2.constRef? with
    | none =>
      -- The cells around the part are one more.
      obtain ⟨y, hy, hylate, hyends⟩ := exists_late_part hI hlink hx hends
      have hynew : y ∉ x :: V := fun hmem => hyends (hlate y hmem)
      have hV' : (y :: x :: V).Nodup := List.nodup_cons.2 ⟨hynew, hV⟩
      have hVS' : y :: x :: V ⊆ S :=
        List.cons_subset.2 ⟨hS.part x (hVS (List.mem_cons_self ..)) y hy, hVS⟩
      have hlate' : ∀ z ∈ y :: x :: V, d.values trail n z = .error .endless :=
        List.forall_mem_cons.2 ⟨hylate, fun z hz => endless_of_succ hI (hlate z hz)⟩
      have hinside := ih htrail hV' hVS' hlate' hyends
        (List.subperm_of_subset hV' hVS').length_le
      rw [List.length_cons] at hinside
      omega
    | some link =>
      cases hconst : d.consts.find? link with
      | none =>
        rw [values_of_undefined hlink hconst] at hx
        cases hx
      | some constant =>
        by_cases hmem : link ∈ trail
        · rw [values_of_cycle hlink hconst hmem] at hx
          cases hx
        -- Around the constant there is nothing yet, but there is one constant less to follow.
        rw [values_of_link hlink hconst hmem] at hx hends
        have htrail' := htrail.concat hconst hmem
        have hroom := htrail'.length_le
        have hconstS := hS.const link constant hconst
        have hinside := ih htrail' (List.nodup_singleton _)
          (List.cons_subset.2 ⟨hconstS, List.nil_subset S⟩) (List.forall_mem_singleton.2 hx) hends
          (List.length_pos_of_mem hconstS)
        rw [List.length_append, List.length_singleton] at hroom hinside
        rw [List.length_nil] at hinside
        have hsucc : d.consts.size - trail.length = d.consts.size - (trail.length + 1) + 1 := by
          omega
        rw [hsucc, Nat.succ_mul]
        omega

/-- A cast that comes to an end does so within the depth that cells which casts do not lead out of
leave to it. -/
theorem ends_of_closed (hI : d.RemembersNames I) {S : List Slot} (hS : d.Closed S) {x : Slot}
    (hx : x ∈ S) {depth k : Nat} (hdepth : (d.consts.size + 1) * S.length ≤ depth)
    (hends : d.values [] k x ≠ .error .endless) : d.values [] depth x ≠ .error .endless := by
  induction k with
  | zero => exact absurd rfl hends
  | succ k ih =>
    by_cases hlate : d.values [] k x = .error .endless
    · have hbound := depth_le hI hS .nil (List.nodup_singleton x)
        (List.cons_subset.2 ⟨hx, List.nil_subset S⟩) (List.forall_mem_singleton.2 hlate) hends
      rw [List.length_nil, List.length_nil, Nat.sub_zero, ← Nat.succ_mul] at hbound
      rwa [(values_lasts hI [] x).le (hbound.trans hdepth) hends]
    · exact ih hlate

end TypedSheets.Definitions
