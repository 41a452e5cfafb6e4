import TypedSheets.Enum.Registry
import TypedSheets.Proofs.Keyed
import TypedSheets.Proofs.Recall.Calls

/-!
# Values of enum members

A member is computed from the members that its definition mentions. The path of the members being
computed shows a cycle as soon as one comes back, but it makes no difference to a member that has a
value: no such member leads back to itself. So the values that are remembered can be used wherever
the member is mentioned.

## Main definitions

* `EnumTables.memberBody` — the value of a member, with the members it mentions as calls.
* `EnumTables.memberValues` — the values of members for growing bounds on the recursion.

## Main results

* `EnumTables.Clear.catch_up` — the path does not keep a member from its value.
* `EnumTables.transparent_memberValue` — the value of a member needs no memory.
* `EnumTables.transparent_evaluate` — neither does the value of an expression.
-/

namespace TypedSheets

open Recall

variable {I : Condition} {strict : Bool}

/-! ### Expressions -/

namespace Token

theorem calls_reduce (stack : List Int64) (ps : List Postfix) :
    Calls I strict fun sub : String → Attempt Int64 => reduce sub stack ps := by
  induction ps generalizing stack with
  | nil => exact .pure _
  | cons p ps ih =>
    cases p with
    | operand v =>
      simp only [reduce]
      refine .bind (p := fun sub => operandValue sub v) ?_ fun n => ih (n :: stack)
      unfold operandValue
      cases literal? v.toList with
      | some n => exact .pure n
      | none => exact .call v
    | invert =>
      simp only [reduce]
      exact .throw _
    | op o =>
      rcases stack with _ | ⟨right, _ | ⟨left, stack⟩⟩
      · simp only [reduce]
        exact .throw _
      · simp only [reduce]
        exact .throw _
      · simp only [reduce]
        exact ih _

/-- An expression is evaluated by calls for its symbols. -/
theorem calls_evaluate (tokens : List Token) :
    Calls I strict fun sub : String → Attempt Int64 => evaluate tokens sub := by
  unfold evaluate
  split
  · split <;> exact .pure _
  · exact .throw _
  · unfold combine
    refine .bind (calls_reduce [] _) fun stack => ?_
    match stack with
    | [n] => exact .pure _
    | [] => exact .throw _
    | _ :: _ :: _ => exact .throw _

end Token

namespace EnumTables

variable {ts : EnumTables} {enumName : String}

/-- The value of a member, with the values of the members that its definition mentions as calls. -/
def memberBody (ts : EnumTables) (enumName member : String) (sub : String → Attempt Int64) :
    Attempt Int64 :=
  match ts.find? enumName with
  | none => Attempt.fail (.undefinedEnum enumName)
  | some table =>
    match table.members.find? member with
    | none => Attempt.fail (.undefinedMember member enumName)
    | some definition => do
      let tokens ← Attempt.ofExcept (Token.parse definition.definition)
      match ← Token.evaluate tokens sub with
      | .integer n => pure n
      | .symbol name => sub name

/-- A member is computed by calls for the members that it mentions. -/
theorem calls_memberBody (member : String) : Calls I strict (ts.memberBody enumName member) := by
  unfold memberBody
  split
  · exact .known (transparent_fail _)
  · split
    · exact .known (transparent_fail _)
    · refine .bind (.known (transparent_ofExcept _)) fun tokens => ?_
      refine .bind (Token.calls_evaluate tokens) fun v => ?_
      cases v with
      | integer n => exact .pure n
      | symbol name => exact .call name

/-- A member on the path leads to a cycle, and any other is computed with a longer path. -/
theorem memberValueFrom_eq (path : List String) (member : String) :
    ts.memberValueFrom enumName path member =
      Attempt.remember (.member enumName member)
        (if member ∈ ts.memberNames enumName ∧ member ∈ path then
          Attempt.fail (cycle enumName (path ++ [member]))
        else ts.memberBody enumName member (ts.memberValueFrom enumName (path ++ [member]))) := by
  rw [memberValueFrom]
  congr 1
  unfold memberBody
  split
  · rename_i ht
    have hmem : member ∉ ts.memberNames enumName := by simp [memberNames, ht]
    simp only [ht, hmem, false_and, if_false]
  · rename_i table ht
    split
    · rename_i hm
      have hmem : member ∉ ts.memberNames enumName := by
        simpa [memberNames, ht, EnumTable.names] using Keyed.find?_eq_none_iff.1 hm
      simp only [ht, hm, hmem, false_and, if_false]
    · rename_i definition hm
      have hmem : member ∈ ts.memberNames enumName := by
        simpa [memberNames, ht, EnumTable.names] using Keyed.mem_keys_of_find? hm
      simp only [ht, hm, hmem, true_and]
      by_cases hpath : member ∈ path
      · rw [dif_pos hpath, if_pos hpath]
      · rewrite [dif_neg hpath, if_neg hpath]
        rfl

/-- What is no member has no value. -/
theorem memberBody_of_not_mem {member : String} (h : member ∉ ts.memberNames enumName) :
    ∃ f, ∀ sub, ts.memberBody enumName member sub = Attempt.fail f := by
  unfold memberBody
  split
  · exact ⟨_, fun _ => rfl⟩
  · rename_i table ht
    have hm : table.members.find? member = none := by
      refine Keyed.find?_eq_none_iff.2 ?_
      simpa [memberNames, ht, EnumTable.names] using h
    rw [hm]
    exact ⟨_, fun _ => rfl⟩

/-- The values of members when at most `n` are computed inside each other. -/
def memberValues (ts : EnumTables) (enumName : String) :
    (n : Nat) → String → Except Halt Int64
  | 0, _ => .error .endless
  | n + 1, member => valueWith (ts.memberBody enumName member) (memberValues ts enumName n)

theorem memberValues_grows : Grows (ts.memberValues enumName) := by
  intro n
  induction n with
  | zero =>
    intro member v h
    cases h
  | succ n ih =>
    intro member v h
    exact (calls_memberBody (I := fun _ _ => True) member).mono_ok ih h

/-- The values of members of an enum are remembered only if they are those for some bound. -/
def Remembers (ts : EnumTables) (I : Condition) : Prop :=
  ∀ enumName member v, I (.member enumName member) v ↔
    ∃ n, ts.memberValues enumName n member = .ok v

/-- No member on the path leads to the one to be computed and back: each of them has its value
later. -/
def Clear (ts : EnumTables) (enumName : String) (path : List String) (member : String) : Prop :=
  ∀ l ∈ path, ∀ n v, ts.memberValues enumName n l = .ok v →
    ∃ k < n, ∃ w, ts.memberValues enumName k member = .ok w

/-- A member that has a value is not on a clear path to itself. -/
theorem Clear.not_mem {path : List String} {member : String}
    (h : ts.Clear enumName path member) {n : Nat} {v : Int64}
    (hv : ts.memberValues enumName n member = .ok v) : member ∉ path := by
  intro hmem
  induction n using Nat.strongRecOn generalizing v with
  | ind n ih =>
    obtain ⟨k, hk, w, hw⟩ := h member hmem n v hv
    exact ih k hk hw

/-- A clear path stays clear when it is followed. -/
theorem Clear.step {path : List String} {member x : String} (h : ts.Clear enumName path member)
    (hx : Follows (ts.memberValues enumName) (ts.memberBody enumName member) x) :
    ts.Clear enumName (path ++ [member]) x := by
  have hnext {n : Nat} {v : Int64} (hv : ts.memberValues enumName n member = .ok v) :
      ∃ k < n, ∃ w, ts.memberValues enumName k x = .ok w := by
    cases n with
    | zero => cases hv
    | succ n => exact ⟨n, Nat.lt_succ_self n, hx n v hv⟩
  intro l hl n v hv
  rcases List.mem_append.1 hl with hl | hl
  · obtain ⟨k, hk, w, hw⟩ := h l hl n v hv
    obtain ⟨j, hj, hjx⟩ := hnext hw
    exact ⟨j, Nat.lt_trans hj hk, hjx⟩
  · cases List.mem_singleton.1 hl
    exact hnext hv

/-- The path does not keep a member from its value. -/
theorem Clear.catch_up {path : List String} {member : String} (h : ts.Clear enumName path member)
    {n : Nat} {v : Int64} (hv : ts.memberValues enumName n member = .ok v) :
    (ts.memberValueFrom enumName path member).run.fresh = .ok v := by
  induction n generalizing path member v with
  | zero => cases hv
  | succ n ih =>
    have hbody : Calls (fun _ _ => True) true (ts.memberBody enumName member) :=
      calls_memberBody member
    rw [memberValueFrom_eq, fresh_remember, if_neg fun hmem => h.not_mem hv hmem.2, hbody.fresh_eq]
    exact hbody.catch_up memberValues_grows hv fun x hx w hw => ih (h.step hx) hw

/-- A value that is computed along a path is the one without it. -/
theorem memberValues_of_fresh {path : List String} {member : String} {n : Nat} {v : Int64}
    (hn : Walk.remaining (ts.memberNames enumName) path < n)
    (h : (ts.memberValueFrom enumName path member).run.fresh = .ok v) :
    ts.memberValues enumName n member = .ok v := by
  induction n generalizing path member v with
  | zero => cases hn
  | succ n ih =>
    have hbody : Calls (fun _ _ => True) true (ts.memberBody enumName member) :=
      calls_memberBody member
    rw [memberValueFrom_eq, fresh_remember] at h
    split at h
    · cases h
    · rename_i hmem
      rw [hbody.fresh_eq] at h
      by_cases hname : member ∈ ts.memberNames enumName
      · have hless := Walk.remaining_lt hname (fun hpath => hmem ⟨hname, hpath⟩)
          (fun _ hx => List.mem_append_left [member] hx)
          (List.mem_append_right path (List.mem_singleton.2 rfl))
        exact hbody.mono_ok (fun x w hw => ih (by omega) hw) h
      · obtain ⟨f, hf⟩ := memberBody_of_not_mem hname
        rw [valueWith, hf] at h
        cases h

/-- Along a clear path the value of a member needs no memory. -/
theorem transparent_memberValueFrom (hI : ts.Remembers I) {path : List String} {member : String}
    (h : ts.Clear enumName path member) :
    Transparent I (ts.memberValueFrom enumName path member) := by
  induction hn : Walk.remaining (ts.memberNames enumName) path using Nat.strongRecOn
    generalizing path member with
  | ind n ih =>
    have hbody : Calls I true (ts.memberBody enumName member) := calls_memberBody member
    have hinner : Transparent I (if member ∈ ts.memberNames enumName ∧ member ∈ path then
        Attempt.fail (cycle enumName (path ++ [member]))
        else ts.memberBody enumName member (ts.memberValueFrom enumName (path ++ [member]))) := by
      split
      · exact transparent_fail _
      · rename_i hmem
        by_cases hname : member ∈ ts.memberNames enumName
        · have hless := Walk.remaining_lt hname (fun hpath => hmem ⟨hname, hpath⟩)
            (fun _ hx => List.mem_append_left [member] hx)
            (List.mem_append_right path (List.mem_singleton.2 rfl))
          exact hbody.transparent_of_follows memberValues_grows
            ⟨_, fun x v hv => memberValues_of_fresh (Nat.lt_succ_self _) hv⟩
            fun x hx => ih _ (hn ▸ hless) (h.step (hx rfl)) rfl
        · obtain ⟨f, hf⟩ := memberBody_of_not_mem hname
          rw [hf]
          exact transparent_fail f
    rw [memberValueFrom_eq]
    refine transparent_remember (fun v => ?_) hinner
    rw [hI, ← fresh_remember (.member enumName member), ← memberValueFrom_eq]
    exact ⟨fun ⟨n, hv⟩ => h.catch_up hv,
      fun hv => ⟨_, memberValues_of_fresh (Nat.lt_succ_self _) hv⟩⟩

/-- The value of a member needs no memory. -/
theorem transparent_memberValue (hI : ts.Remembers I) (member : String) :
    Transparent I (ts.memberValue enumName member) :=
  transparent_memberValueFrom hI fun _ hl => absurd hl List.not_mem_nil

/-- Neither does the value of an expression over the members. -/
theorem transparent_evaluate (hI : ts.Remembers I) (text : String) :
    Transparent I (ts.evaluate enumName text) := by
  unfold evaluate
  split
  · exact transparent_fail _
  · refine (transparent_ofExcept _).bind fun tokens _ => ?_
    split
    · exact transparent_fail _
    · exact (show Calls I true _ from Token.calls_evaluate tokens).transparent_apply
        fun member => transparent_memberValue hI member

end EnumTables

end TypedSheets
