import Mathlib.Data.List.Forall2
import TypedSheets.Keyed

/-!
# Lists and results

Facts on related lists and on results that may be failures, which compilations are put together
from.

## Main definitions

* `Except.ErrorsIn` — what the failure of a result can be.

## Main results

* `List.Forall₂.exists_of_mem_left`, `List.Forall₂.exists_of_mem_right` — the partner of an element.
* `TypedSheets.Keyed.rel_find?` — related entries under the same keys.
* `Except.exists_of_bind_ok`, `Except.exists_of_map_ok`, `Except.mapM_eq_ok_iff` — the way back
  from a success to its parts.
-/

variable {α β : Type} {R : α → β → Prop}

/-- Every element on the left has a partner on the right. -/
theorem List.Forall₂.exists_of_mem_left {l : List α} {m : List β} (h : List.Forall₂ R l m) {a : α}
    (ha : a ∈ l) : ∃ b ∈ m, R a b := by
  induction h with
  | nil => cases ha
  | @cons a' b' l m hR _ ih =>
    rcases List.mem_cons.1 ha with rfl | ha
    · exact ⟨b', List.mem_cons_self .., hR⟩
    · obtain ⟨b, hb, hab⟩ := ih ha
      exact ⟨b, List.mem_cons_of_mem b' hb, hab⟩

/-- Every element on the right has a partner on the left. -/
theorem List.Forall₂.exists_of_mem_right {l : List α} {m : List β} (h : List.Forall₂ R l m) {b : β}
    (hb : b ∈ m) : ∃ a ∈ l, R a b := by
  have hflip : List.Forall₂ (fun b a => R a b) m l := List.Forall₂.flip h
  exact hflip.exists_of_mem_left hb

/-- What every element on the right has can be said along with the relation. -/
theorem List.Forall₂.and_right {P : β → Prop} {l : List α} {m : List β} (h : List.Forall₂ R l m)
    (hP : ∀ b ∈ m, P b) : List.Forall₂ (fun a b => R a b ∧ P b) l m := by
  induction h with
  | nil => exact .nil
  | @cons a b l m hR _ ih =>
    rw [List.forall_mem_cons] at hP
    exact .cons ⟨hR, hP.1⟩ (ih hP.2)

/-- Related elements stand in their lists. -/
theorem List.Forall₂.and_mem {l : List α} {m : List β} (h : List.Forall₂ R l m) :
    List.Forall₂ (fun a b => R a b ∧ a ∈ l ∧ b ∈ m) l m := by
  induction h with
  | nil => exact .nil
  | cons hab _ ih =>
    exact .cons ⟨hab, List.mem_cons_self, List.mem_cons_self⟩ (ih.imp fun a b hab =>
      ⟨hab.1, List.mem_cons_of_mem _ hab.2.1, List.mem_cons_of_mem _ hab.2.2⟩)

/-- What is the same on both sides of related lists. -/
theorem List.Forall₂.map_eq {γ : Type} {f : α → γ} {g : β → γ} {l : List α} {m : List β}
    (h : List.Forall₂ (fun a b => f a = g b) l m) : l.map f = m.map g := by
  induction h with
  | nil => rfl
  | cons hab _ ih => rw [List.map_cons, List.map_cons, hab, ih]

/-- Elements that contribute related lists. -/
theorem List.forall₂_flatMap {γ : Type} {f : γ → List α} {g : γ → List β} {l : List γ}
    (h : ∀ c ∈ l, List.Forall₂ R (f c) (g c)) : List.Forall₂ R (l.flatMap f) (l.flatMap g) := by
  induction l with
  | nil => exact .nil
  | cons c l ih =>
    rw [List.forall_mem_cons] at h
    exact List.rel_append h.1 (ih h.2)

/-- What is there on the left has a partner on the right. -/
theorem Option.Rel.exists_of_some {a : α} {o : Option β} (h : Option.Rel R (Option.some a) o) :
    ∃ b, o = Option.some b ∧ R a b := by
  cases h with
  | some h => exact ⟨_, rfl, h⟩

/-- What is not there on the left is not there on the right. -/
theorem Option.Rel.eq_none {o : Option β} (h : Option.Rel R Option.none o) : o = Option.none := by
  cases h
  rfl

/-- Related entries under the same keys are found together. -/
theorem TypedSheets.Keyed.rel_find? {κ : Type} [DecidableEq κ] {R : κ → α → β → Prop}
    {t : Keyed κ α} {u : Keyed κ β}
    (h : List.Forall₂ (fun e f => e.1 = f.1 ∧ R e.1 e.2 f.2) t.entries u.entries) (k : κ) :
    Option.Rel (R k) (t.find? k) (u.find? k) := by
  unfold find?
  generalize t.entries = l, u.entries = m at h
  induction h with
  | nil => exact .none
  | @cons e f l m hef _ ih =>
    obtain ⟨k', a⟩ := e
    obtain ⟨k'', b⟩ := f
    obtain ⟨rfl, hab⟩ := hef
    unfold lookup
    split
    · rename_i hk
      subst hk
      exact .some hab
    · exact ih

/-- What is appended last can be appended first. -/
theorem List.perm_append_right_comm (l m n : List α) : (l ++ m ++ n).Perm (l ++ n ++ m) := by
  rw [List.append_assoc, List.append_assoc]
  exact List.perm_append_comm.append_left l

/-- Elements that are filtered out contribute nothing. -/
theorem List.flatMap_filter (p : α → Bool) (f : α → List β) (l : List α) :
    (l.filter p).flatMap f = l.flatMap fun a => if p a then f a else [] := by
  induction l with
  | nil => rfl
  | cons a l ih =>
    rw [List.flatMap_cons, ← ih]
    cases ha : p a with
    | true => rw [List.filter_cons_of_pos ha, List.flatMap_cons, if_pos rfl]
    | false => rw [List.filter_cons_of_neg (by simp [ha]), if_neg (by simp), List.nil_append]

/-- If no two elements contribute anything, one that does contributes all. -/
theorem List.flatMap_eq_of_alone {f : α → List β} {l : List α} {a : α} (ha : a ∈ l)
    (h : l.Pairwise fun x y => f x = [] ∨ f y = []) (hne : f a ≠ []) : l.flatMap f = f a := by
  obtain ⟨before, after, rfl⟩ := List.append_of_mem ha
  obtain ⟨-, hafter, hbefore⟩ := List.pairwise_append.1 h
  have hbefore : before.flatMap f = [] := List.flatMap_eq_nil_iff.2 fun x hx =>
    (hbefore x hx a (List.mem_cons_self ..)).resolve_right hne
  have hafter : after.flatMap f = [] := List.flatMap_eq_nil_iff.2 fun x hx =>
    ((List.pairwise_cons.1 hafter).1 x hx).resolve_left hne
  rw [List.flatMap_append, List.flatMap_cons, hbefore, hafter, List.nil_append, List.append_nil]

/-- What stands in lists with a separator between them. -/
theorem List.exists_of_mem_intercalate {separator : List α} {ls : List (List α)} {a : α}
    (h : a ∈ separator.intercalate ls) : a ∈ separator ∨ ∃ l ∈ ls, a ∈ l := by
  induction ls with
  | nil => simp at h
  | cons l ls ih =>
    cases ls with
    | nil => exact .inr ⟨l, by simp, by simpa using h⟩
    | cons next ls =>
      rw [List.intercalate_cons_cons, List.append_assoc, List.mem_append, List.mem_append] at h
      rcases h with h | h | h
      · exact .inr ⟨l, List.mem_cons_self, h⟩
      · exact .inl h
      · exact (ih h).imp_right fun ⟨m, hm, ha⟩ => ⟨m, List.mem_cons_of_mem _ hm, ha⟩

/-- A list with two different elements is longer than one. -/
theorem List.one_lt_length_of_ne {l : List α} {a b : α} (ha : a ∈ l) (hb : b ∈ l) (h : a ≠ b) :
    1 < l.length := by
  match l with
  | [] => cases ha
  | [c] => exact absurd ((List.mem_singleton.1 ha).trans (List.mem_singleton.1 hb).symm) h
  | _ :: _ :: l => exact Nat.succ_lt_succ (Nat.succ_pos l.length)

/-- If at most one element passes a test, no two do. -/
theorem List.pairwise_of_length_filter {p : α → Bool} {l : List α}
    (h : (l.filter p).length ≤ 1) : l.Pairwise fun a b => p a = false ∨ p b = false := by
  induction l with
  | nil => exact .nil
  | cons a l ih =>
    cases ha : p a with
    | false =>
      rw [List.filter_cons_of_neg (by simp [ha])] at h
      exact List.pairwise_cons.2 ⟨fun b _ => .inl ha, ih h⟩
    | true =>
      rw [List.filter_cons_of_pos ha, List.length_cons] at h
      refine List.pairwise_cons.2 ⟨fun b hb => .inr ?_, ih (by omega)⟩
      have hnil : l.filter p = [] := List.eq_nil_of_length_eq_zero (by omega)
      simpa using List.filter_eq_nil_iff.1 hnil b hb

/-- The first element without a property is told from the list. -/
theorem List.eq_of_append_cons {P : α → Prop} {before before' after after' : List α} {a a' : α}
    (h : before ++ a :: after = before' ++ a' :: after') (hbefore : ∀ x ∈ before, P x)
    (ha : ¬ P a) (hbefore' : ∀ x ∈ before', P x) (ha' : ¬ P a') : a = a' := by
  induction before generalizing before' with
  | nil =>
    cases before' with
    | nil => exact (List.cons.inj h).1
    | cons b before' =>
      cases h
      exact absurd (hbefore' a List.mem_cons_self) ha
  | cons b before ih =>
    cases before' with
    | nil =>
      cases h
      exact absurd (hbefore a' List.mem_cons_self) ha'
    | cons b' before' =>
      rw [List.forall_mem_cons] at hbefore hbefore'
      exact ih (List.cons.inj h).2 hbefore.2 hbefore'.2

/-- No element is left twice when repeated ones are dropped. -/
theorem List.nodup_eraseDups [BEq α] [LawfulBEq α] (l : List α) : l.eraseDups.Nodup := by
  induction hn : l.length using Nat.strongRecOn generalizing l with
  | ind n ih =>
    cases l with
    | nil => exact List.nodup_nil
    | cons a l =>
      rw [List.eraseDups_cons, List.nodup_cons, List.mem_eraseDups]
      refine ⟨by simp, ih _ ?_ _ rfl⟩
      rw [← hn]
      exact Nat.lt_succ_of_le (List.length_filter_le ..)

/-- An element at the end is dropped if it is there already. -/
theorem List.eraseDups_concat [BEq α] [LawfulBEq α] [DecidableEq α] (l : List α) (a : α) :
    (l ++ [a]).eraseDups = if a ∈ l then l.eraseDups else l.eraseDups ++ [a] := by
  rw [List.eraseDups_append]
  by_cases ha : a ∈ l
  · simp [List.removeAll, ha]
  · simp [List.removeAll, ha, List.eraseDups_cons]

/-- A traversal looks at the elements of the list only. -/
theorem List.mapM_congr {m : Type → Type} [Monad m] [LawfulMonad m] {f g : α → m β} {l : List α}
    (h : ∀ a ∈ l, f a = g a) : l.mapM f = l.mapM g := by
  induction l with
  | nil => simp only [List.mapM_nil]
  | cons a l ih =>
    rw [List.forall_mem_cons] at h
    rw [List.mapM_cons, List.mapM_cons, h.1, ih h.2]

variable {ε : Type}

/-- What a result has is what it succeeds with. -/
theorem Except.toOption_eq_some_iff {x : Except ε α} {a : α} : x.toOption = some a ↔ x = .ok a := by
  cases x <;> simp [Except.toOption]

/-- A bind succeeds through a success of its first part. -/
theorem Except.exists_of_bind_ok {x : Except ε α} {f : α → Except ε β} {b : β}
    (h : x >>= f = .ok b) : ∃ a, x = .ok a ∧ f a = .ok b := by
  cases x with
  | error e => cases h
  | ok a => exact ⟨a, rfl, h⟩

/-- What follows a result needs to agree on its success only. -/
theorem Except.bind_congr_ok {x : Except ε α} {f g : α → Except ε β}
    (h : ∀ a, x = .ok a → f a = g a) : x >>= f = x >>= g := by
  cases x with
  | error e => rfl
  | ok a => exact h a rfl

/-- A changed result is a success of what is changed. -/
theorem Except.exists_of_map_ok {x : Except ε α} {f : α → β} {b : β} (h : f <$> x = .ok b) :
    ∃ a, x = .ok a ∧ f a = b := by
  cases x with
  | error e => cases h
  | ok a =>
    cases h
    exact ⟨a, rfl, rfl⟩

/-- A traversal succeeds with the successes of all elements. -/
theorem Except.mapM_eq_ok_iff {f : α → Except ε β} {l : List α} {m : List β} :
    l.mapM f = .ok m ↔ List.Forall₂ (fun a b => f a = .ok b) l m := by
  induction l generalizing m with
  | nil =>
    rw [List.mapM_nil, List.forall₂_nil_left_iff]
    exact ⟨fun h => by cases h; rfl, fun h => by rw [h]; rfl⟩
  | cons a l ih =>
    rw [List.mapM_cons, List.forall₂_cons_left_iff]
    constructor
    · intro h
      obtain ⟨b, hb, h⟩ := exists_of_bind_ok h
      obtain ⟨bs, hbs, h⟩ := exists_of_bind_ok h
      cases h
      exact ⟨b, bs, hb, ih.1 hbs, rfl⟩
    · rintro ⟨b, bs, hb, hbs, rfl⟩
      rw [hb, ih.2 hbs]
      rfl

/-- A traversal succeeds if every element does. -/
theorem Except.exists_mapM_ok {f : α → Except ε β} {l : List α} (h : ∀ a ∈ l, ∃ b, f a = .ok b) :
    ∃ m, l.mapM f = .ok m := by
  induction l with
  | nil => exact ⟨[], rfl⟩
  | cons a l ih =>
    rw [List.forall_mem_cons] at h
    obtain ⟨b, hb⟩ := h.1
    obtain ⟨m, hm⟩ := ih h.2
    refine ⟨b :: m, ?_⟩
    rw [List.mapM_cons, hb, hm]
    rfl

/-- A traversal fails with the first failure of an element. -/
theorem Except.mapM_eq_error_iff {f : α → Except ε β} {l : List α} {e : ε} :
    l.mapM f = .error e ↔ ∃ before a after, l = before ++ a :: after ∧
      (∀ x ∈ before, ∃ b, f x = .ok b) ∧ f a = .error e := by
  constructor
  · intro h
    induction l with
    | nil => cases h
    | cons a l ih =>
      rw [List.mapM_cons] at h
      cases ha : f a with
      | error e' =>
        rw [ha] at h
        cases h
        exact ⟨[], a, l, rfl, List.forall_mem_nil _, ha⟩
      | ok b =>
        rw [ha] at h
        cases hl : l.mapM f with
        | ok bs =>
          rw [hl] at h
          cases h
        | error e' =>
          rw [hl] at h
          cases h
          obtain ⟨before, x, after, rfl, hbefore, hx⟩ := ih hl
          exact ⟨a :: before, x, after, rfl, List.forall_mem_cons.2 ⟨⟨b, ha⟩, hbefore⟩, hx⟩
  · rintro ⟨before, a, after, rfl, hbefore, ha⟩
    obtain ⟨bs, hbs⟩ := exists_mapM_ok hbefore
    rw [List.mapM_append, hbs, List.mapM_cons, ha]
    rfl

/-- A failure, if a result is one, is of a kind. -/
def Except.ErrorsIn (P : ε → Prop) (x : Except ε α) : Prop :=
  ∀ e, x = .error e → P e

namespace Except.ErrorsIn

variable {P : ε → Prop}

theorem ok (a : α) : ErrorsIn P (.ok a) := by
  intro e h
  cases h

theorem error {e : ε} (h : P e) : ErrorsIn P (.error e : Except ε α) := by
  intro e' h'
  cases h'
  exact h

theorem bind {x : Except ε α} {f : α → Except ε β} (hx : x.ErrorsIn P)
    (hf : ∀ a, (f a).ErrorsIn P) : (x >>= f).ErrorsIn P := by
  cases x with
  | ok a => exact hf a
  | error e => exact error (hx e rfl)

theorem map {x : Except ε α} {f : α → β} (hx : x.ErrorsIn P) : (f <$> x).ErrorsIn P := by
  rw [← bind_pure_comp]
  exact hx.bind fun a => ok (f a)

theorem mapM {f : α → Except ε β} (hf : ∀ a, (f a).ErrorsIn P) (l : List α) :
    (l.mapM f).ErrorsIn P := by
  induction l with
  | nil => exact ok []
  | cons a l ih =>
    rw [List.mapM_cons]
    exact (hf a).bind fun b => ih.bind fun bs => ok (b :: bs)

end Except.ErrorsIn
