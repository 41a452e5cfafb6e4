import TypedSheets.Proofs.Casting.Parts

/-!
# Casts with a memory

The value of a cell that is cast while constants are being followed is remembered without them. That
is right because the constants that are followed make no difference to a cell that has a value: a
cast that succeeds never comes back to a constant. Failures, whose texts may name the constants, are
not remembered.

## Main definitions

* `Definitions.freeValues` — the values of cells when no constants are told apart.
* `Definitions.values` — the values of cells without a memory, while constants are being followed.
* `Definitions.Remembers` — what is remembered is what is computed.

## Main results

* `Definitions.Clear.catch_up` — the constants that are followed do not keep a cell from its value.
* `Definitions.settled_castFrom` — with a memory, a cast comes to what it comes to without one.
-/

namespace TypedSheets.Definitions

open Recall

variable {I : Condition} {d : Definitions}

/-! ### Casts without a memory -/

/-- The values of cells without a memory, while the constants of a trail are being followed and at
most `n` casts are nested. -/
def values (d : Definitions) (trail : Trail) (n : Nat) (x : Slot) : Except Halt Value :=
  (d.castFrom n trail x.1 x.2).run.fresh

/-- The value of a cell that refers to no constant, with the values of its parts as calls. -/
def plainValue (d : Definitions) (x : Slot) (o : Slot → Except Halt Value) : Except Halt Value :=
  (d.settle x.1 x.2).run.fresh >>= fun cell =>
    valueWith (fun sub => d.castPlain (parts sub) x.1 cell) o

/-- The values of cells when at most `n` casts are nested and no constants are told apart. -/
def freeValues (d : Definitions) : (n : Nat) → Slot → Except Halt Value
  | 0, _ => .error .endless
  | n + 1, x =>
    match x.2.constRef? with
    | some link =>
      match d.consts.find? link with
      | none => .error (.failure (d.undefinedConstant link.1 link.2))
      | some constant => freeValues d n (constant.type, constant.value)
    | none => d.plainValue x (freeValues d n)

/-- What is remembered is what is computed; the value of a cell, whatever constants are being
followed. -/
structure Remembers (d : Definitions) (I : Condition) : Prop extends d.RemembersNames I where
  /-- Values of cells. -/
  casts : ∀ type cell v, I (.cast type cell) v ↔
    ∃ n, valueWith (fun sub => d.castPlain (parts sub) type cell) (d.freeValues n) = .ok v

section Values

variable {trail : Trail} {n : Nat} {x : Slot} {link : String × String} {constant : Constant}

theorem values_of_undefined (hx : x.2.constRef? = some link) (hc : d.consts.find? link = none) :
    d.values trail (n + 1) x = .error (.failure (d.undefinedConstant link.1 link.2)) := by
  simp only [values, castFrom, hx, hc]
  rfl

theorem values_of_cycle (hx : x.2.constRef? = some link)
    (hc : d.consts.find? link = some constant) (ht : link ∈ trail) :
    d.values trail (n + 1) x = .error (.failure (constantCycle (trail ++ [link]))) := by
  simp only [values, castFrom, hx, hc, List.contains_iff_mem.2 ht, if_true]
  rfl

theorem values_of_link (hx : x.2.constRef? = some link)
    (hc : d.consts.find? link = some constant) (ht : link ∉ trail) :
    d.values trail (n + 1) x = d.values (trail ++ [link]) n (constant.type, constant.value) := by
  have ht : ¬ trail.contains link = true := fun h => ht (List.contains_iff_mem.1 h)
  simp only [values, castFrom, hx, hc, if_neg ht]

theorem values_of_plain (hI : d.RemembersNames I) (hx : x.2.constRef? = none) :
    d.values trail (n + 1) x = d.plainValue x (d.values trail n) := by
  simp only [values, castFrom, hx, fresh_bind_run]
  refine bind_congr fun cell => (fresh_remember (.cast x.1 cell) _).trans ?_
  exact (calls_castPlain hI x.1 cell).fresh_eq fun y => d.castFrom n trail y.1 y.2

theorem freeValues_of_undefined (hx : x.2.constRef? = some link)
    (hc : d.consts.find? link = none) :
    d.freeValues (n + 1) x = .error (.failure (d.undefinedConstant link.1 link.2)) := by
  simp only [freeValues, hx, hc]

theorem freeValues_of_link (hx : x.2.constRef? = some link)
    (hc : d.consts.find? link = some constant) :
    d.freeValues (n + 1) x = d.freeValues n (constant.type, constant.value) := by
  simp only [freeValues, hx, hc]

theorem freeValues_of_plain (hx : x.2.constRef? = none) :
    d.freeValues (n + 1) x = d.plainValue x (d.freeValues n) := by
  simp only [freeValues, hx]

end Values

theorem plainValue_of_ok {x : Slot} {cell : Cell} (hx : (d.settle x.1 x.2).run.fresh = .ok cell)
    (o : Slot → Except Halt Value) :
    d.plainValue x o = valueWith (fun sub => d.castPlain (parts sub) x.1 cell) o := by
  rw [plainValue, hx]
  rfl

theorem plainValue_of_error {x : Slot} {e : Halt} (hx : (d.settle x.1 x.2).run.fresh = .error e)
    (o : Slot → Except Halt Value) : d.plainValue x o = .error e := by
  rw [plainValue, hx]
  rfl

/-- The cell behind a value. -/
theorem exists_of_plainValue {x : Slot} {o : Slot → Except Halt Value} {v : Value}
    (h : d.plainValue x o = .ok v) : ∃ cell, (d.settle x.1 x.2).run.fresh = .ok cell := by
  cases hx : (d.settle x.1 x.2).run.fresh with
  | ok cell => exact ⟨cell, rfl⟩
  | error e =>
    rw [plainValue_of_error hx] at h
    cases h

/-- More successes of parts, the same success of a cell. -/
theorem plainValue_mono_ok (hI : d.RemembersNames I) {o o' : Slot → Except Halt Value}
    (ho : ∀ y v, o y = .ok v → o' y = .ok v) {x : Slot} {v : Value}
    (h : d.plainValue x o = .ok v) : d.plainValue x o' = .ok v := by
  obtain ⟨cell, hcell⟩ := exists_of_plainValue h
  rw [plainValue_of_ok hcell] at h ⊢
  exact (calls_castPlain hI x.1 cell).mono_ok ho h

/-- More parts whose casts end, the same result of a cell. -/
theorem plainValue_mono (hI : d.RemembersNames I) {o o' : Slot → Except Halt Value}
    (ho : ∀ y, o y ≠ .error .endless → o' y = o y) {x : Slot}
    (h : d.plainValue x o ≠ .error .endless) : d.plainValue x o' = d.plainValue x o := by
  cases hcell : (d.settle x.1 x.2).run.fresh with
  | error e => rw [plainValue_of_error hcell, plainValue_of_error hcell]
  | ok cell =>
    rw [plainValue_of_ok hcell] at h
    rw [plainValue_of_ok hcell, plainValue_of_ok hcell]
    exact (calls_castPlain hI x.1 cell).mono ho h

theorem freeValues_grows (hI : d.RemembersNames I) : Grows d.freeValues := by
  intro n
  induction n with
  | zero =>
    intro x v h
    cases h
  | succ n ih =>
    intro x v h
    cases hx : x.2.constRef? with
    | some link =>
      cases hc : d.consts.find? link with
      | none =>
        rw [freeValues_of_undefined hx hc] at h
        cases h
      | some constant =>
        rw [freeValues_of_link hx hc] at h ⊢
        exact ih _ v h
    | none =>
      rw [freeValues_of_plain hx] at h ⊢
      exact plainValue_mono_ok hI ih h

/-- What a cast comes to does not change with the bound once it is there. -/
theorem values_lasts (hI : d.RemembersNames I) (trail : Trail) (x : Slot) :
    Lasts fun n => d.values trail n x := by
  intro n
  induction n generalizing trail x with
  | zero => exact fun h => absurd rfl h
  | succ n ih =>
    intro h
    change d.values trail (n + 1 + 1) x = d.values trail (n + 1) x
    cases hx : x.2.constRef? with
    | some link =>
      cases hc : d.consts.find? link with
      | none => rw [values_of_undefined hx hc, values_of_undefined hx hc]
      | some constant =>
        by_cases ht : link ∈ trail
        · rw [values_of_cycle hx hc ht, values_of_cycle hx hc ht]
        · simp only [values_of_link hx hc ht] at h ⊢
          exact ih _ _ h
    | none =>
      simp only [values_of_plain hI hx] at h ⊢
      exact plainValue_mono hI (fun y hy => ih trail y hy) h

/-- A value that a cell has while constants are being followed is its value without them. -/
theorem freeValues_of_values (hI : d.RemembersNames I) {trail : Trail} {n : Nat} {x : Slot}
    {v : Value} (h : d.values trail n x = .ok v) : d.freeValues n x = .ok v := by
  induction n generalizing trail x v with
  | zero => cases h
  | succ n ih =>
    cases hx : x.2.constRef? with
    | some link =>
      cases hc : d.consts.find? link with
      | none =>
        rw [values_of_undefined hx hc] at h
        cases h
      | some constant =>
        by_cases ht : link ∈ trail
        · rw [values_of_cycle hx hc ht] at h
          cases h
        · rw [values_of_link hx hc ht] at h
          rw [freeValues_of_link hx hc]
          exact ih h
    | none =>
      rw [values_of_plain hI hx] at h
      rw [freeValues_of_plain hx]
      exact plainValue_mono_ok hI (fun y w hw => ih hw) h

/-! ### Clear trails -/

/-- The constants of a trail lead to a cell: whenever one of them has a value, so does the cell,
with no larger bound. -/
def Clear (d : Definitions) (trail : Trail) (x : Slot) : Prop :=
  ∀ link ∈ trail, ∀ constant, d.consts.find? link = some constant →
    ∀ n v, d.freeValues n (constant.type, constant.value) = .ok v →
      ∃ k ≤ n, ∃ w, d.freeValues k x = .ok w

theorem clear_nil (x : Slot) : d.Clear [] x :=
  fun _ h => absurd h List.not_mem_nil

section Clear

variable {trail : Trail} {n : Nat} {x : Slot} {v : Value} {link : String × String}
  {constant : Constant}

/-- A cell that has a value refers to no constant of a clear trail. -/
theorem Clear.not_mem (h : d.Clear trail x) (hx : x.2.constRef? = some link)
    (hc : d.consts.find? link = some constant)
    (hv : d.freeValues n (constant.type, constant.value) = .ok v) : link ∉ trail := by
  intro ht
  induction n using Nat.strongRecOn generalizing v with
  | ind n ih =>
    obtain ⟨k, hk, w, hw⟩ := h link ht constant hc n v hv
    cases k with
    | zero => cases hw
    | succ k =>
      rw [freeValues_of_link hx hc] at hw
      exact ih k hk hw

/-- A trail stays clear when a constant is followed. -/
theorem Clear.follow (h : d.Clear trail x) (hx : x.2.constRef? = some link)
    (hc : d.consts.find? link = some constant) :
    d.Clear (trail ++ [link]) (constant.type, constant.value) := by
  intro l hl c hlc n v hv
  rcases List.mem_append.1 hl with hl | hl
  · obtain ⟨k, hk, w, hw⟩ := h l hl c hlc n v hv
    cases k with
    | zero => cases hw
    | succ k =>
      rw [freeValues_of_link hx hc] at hw
      exact ⟨k, by omega, w, hw⟩
  · cases List.mem_singleton.1 hl
    cases hc.symm.trans hlc
    exact ⟨n, Nat.le_refl n, v, hv⟩

/-- A trail stays clear when a part is cast. -/
theorem Clear.part (h : d.Clear trail x) (hx : x.2.constRef? = none) {cell : Cell}
    (hcell : (d.settle x.1 x.2).run.fresh = .ok cell) {y : Slot}
    (hy : Follows d.freeValues (fun sub => d.castPlain (parts sub) x.1 cell) y) :
    d.Clear trail y := by
  intro l hl c hlc n v hv
  obtain ⟨k, hk, w, hw⟩ := h l hl c hlc n v hv
  cases k with
  | zero => cases hw
  | succ k =>
    rw [freeValues_of_plain hx, plainValue_of_ok hcell] at hw
    exact ⟨k, by omega, hy k w hw⟩

/-- The constants that are followed do not keep a cell from its value. -/
theorem Clear.catch_up (hI : d.RemembersNames I) (h : d.Clear trail x)
    (hv : d.freeValues n x = .ok v) : d.values trail n x = .ok v := by
  induction n generalizing trail x v with
  | zero => cases hv
  | succ n ih =>
    cases hx : x.2.constRef? with
    | some link =>
      cases hc : d.consts.find? link with
      | none =>
        rw [freeValues_of_undefined hx hc] at hv
        cases hv
      | some constant =>
        rw [freeValues_of_link hx hc] at hv
        rw [values_of_link hx hc (h.not_mem hx hc hv)]
        exact ih (h.follow hx hc) hv
    | none =>
      rw [freeValues_of_plain hx] at hv
      obtain ⟨cell, hcell⟩ := exists_of_plainValue hv
      rw [plainValue_of_ok hcell] at hv
      rw [values_of_plain hI hx, plainValue_of_ok hcell]
      exact (calls_castPlain hI x.1 cell).catch_up (freeValues_grows hI) hv
        fun y hy w hw => ih (h.part hx hcell hy) hw

end Clear

/-! ### Casts with a memory -/

/-- A remembered value is the one that a cell has while constants are followed that lead to it. -/
theorem Remembers.cast_iff (hI : d.Remembers I) {trail : Trail} {x : Slot} (h : d.Clear trail x)
    (hx : x.2.constRef? = none) {cell : Cell}
    (hcell : (d.settle x.1 x.2).run.fresh = .ok cell) (v : Value) :
    I (.cast x.1 cell) v ↔ ∃ n, valueWith (fun sub => d.castPlain (parts sub) x.1 cell)
      (d.values trail n) = .ok v := by
  have hnames := hI.toRemembersNames
  have hcalls := calls_castPlain hnames x.1 cell
  rw [hI.casts]
  constructor
  · rintro ⟨n, hv⟩
    refine ⟨n, hcalls.catch_up (freeValues_grows hnames) hv fun y hy w hw => ?_⟩
    exact (h.part hx hcell hy).catch_up hnames hw
  · rintro ⟨n, hv⟩
    exact ⟨n, hcalls.mono_ok (fun y w => freeValues_of_values hnames) hv⟩

/-- **With a memory, a cast comes to what it comes to without one**, while constants are being
followed that lead to the cell.

**Proof sketch.** By induction on the bound on nested casts. A remembered value is the value of the
cell with no constants told apart, and the trail does not keep the cell from it; a value that is
computed is put together from casts of parts, to which the constants lead as well. -/
theorem settled_castFrom (hI : d.Remembers I) (n : Nat) {trail : Trail} {x : Slot}
    (h : d.Clear trail x) :
    Ensures I (d.castFrom n trail x.1 x.2).run (Settled (fun k => d.values trail k x) n) := by
  have hnames := hI.toRemembersNames
  induction n generalizing trail x with
  | zero => exact .inr ⟨rfl, rfl⟩
  | succ n ih =>
    have hself := settled_self (fun k => d.values trail k x) (n + 1)
    cases hx : x.2.constRef? with
    | some link =>
      cases hc : d.consts.find? link with
      | none =>
        simp only [values_of_undefined hx hc] at hself
        simp only [castFrom, hx, hc]
        exact hself
      | some constant =>
        by_cases ht : link ∈ trail
        · simp only [values_of_cycle hx hc ht] at hself
          simp only [castFrom, hx, hc, List.contains_iff_mem.2 ht, if_true]
          exact hself
        · have hnot : ¬ trail.contains link = true := fun h => ht (List.contains_iff_mem.1 h)
          simp only [castFrom, hx, hc, if_neg hnot]
          exact (ih (h.follow hx hc)).mono fun r hr =>
            hr.succ fun k => values_of_link hx hc ht
    | none =>
      simp only [castFrom, hx]
      refine Ensures.bind (c := (d.settle x.1 x.2).run) (f := ExceptT.bindCont fun cell =>
        Attempt.remember (.cast x.1 cell) (d.castPlain (d.castFrom n trail) x.1 cell))
        (transparent_settle hnames x.1 x.2) fun r hr => ?_
      cases r with
      | error e =>
        simp only [values_of_plain hnames hx, plainValue_of_error hr.symm] at hself
        exact hself
      | ok cell =>
        have hparts (y : Slot) (hy : true = true → Follows d.freeValues
            (fun sub => d.castPlain (parts sub) x.1 cell) y) :
            Ensures I (d.castFrom n trail y.1 y.2).run (Settled (fun k => d.values trail k y) n) :=
          ih (h.part hx hr.symm (hy rfl))
        have hcast := (calls_castPlain hnames x.1 cell).settled
          (fun y => values_lasts hnames trail y) (freeValues_grows hnames)
          (fun k => ⟨k, fun y v => freeValues_of_values hnames⟩) hparts
        have hremember := settled_remember (q := .cast x.1 cell) (hI.cast_iff h hx hr.symm) hcast
        refine Ensures.mono hremember fun r hr' => hr'.succ fun k => ?_
        rw [values_of_plain hnames hx, plainValue_of_ok hr.symm]

end TypedSheets.Definitions
