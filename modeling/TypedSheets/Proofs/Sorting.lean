import Mathlib.Data.List.Forall2
import Mathlib.Data.List.Nodup
import Mathlib.Data.List.Range
import TypedSheets.Sorting

/-!
# Sorted lists

## Main results

* `pairwise_sortBy` — a sorted list is in order.
* `sortBy_map`, `forall₂_sortBy` — images, and related elements, are sorted alike.
* `zip_sortBy_perm` — lists in step that are sorted in one order stay in step.
* `sortBy_positions` — elements that carry their positions are put in place.
* `sortBy_eq_iff` — lists that are sorted by a key into the same list.
-/

namespace TypedSheets

variable {α : Type} {le : α → α → Bool}

/-- An element put into a list in order leaves it in order. -/
theorem pairwise_insertBy (htotal : ∀ a b, le a b = true ∨ le b a = true)
    (htrans : ∀ a b c, le a b = true → le b c = true → le a c = true) {a : α} {l : List α}
    (h : l.Pairwise fun x y => le x y = true) :
    (insertBy le a l).Pairwise fun x y => le x y = true := by
  induction l with
  | nil => exact List.pairwise_singleton _ a
  | cons b l ih =>
    obtain ⟨hb, hl⟩ := List.pairwise_cons.1 h
    rw [insertBy]
    split
    · rename_i hab
      refine List.pairwise_cons.2 ⟨fun c hc => ?_, h⟩
      rcases List.mem_cons.1 hc with rfl | hc
      · exact hab
      · exact htrans a b c hab (hb c hc)
    · rename_i hab
      refine List.pairwise_cons.2 ⟨fun c hc => ?_, ih hl⟩
      rcases List.mem_cons.1 ((insertBy_perm le a l).mem_iff.1 hc) with rfl | hc
      · exact (htotal _ _).resolve_left hab
      · exact hb c hc

/-- A sorted list is in order, if the order is total and transitive. -/
theorem pairwise_sortBy (le : α → α → Bool) (htotal : ∀ a b, le a b = true ∨ le b a = true)
    (htrans : ∀ a b c, le a b = true → le b c = true → le a c = true) (l : List α) :
    (sortBy le l).Pairwise fun x y => le x y = true := by
  induction l with
  | nil => exact .nil
  | cons a l ih => exact pairwise_insertBy htotal htrans ih

/-! ### Other orders, other elements -/

theorem insertBy_congr {le' : α → α → Bool} {a : α} {l : List α}
    (h : ∀ b ∈ l, le a b = le' a b) : insertBy le a l = insertBy le' a l := by
  induction l with
  | nil => rfl
  | cons b l ih =>
    rw [insertBy, insertBy, h b List.mem_cons_self, ih fun c hc => h c (List.mem_cons_of_mem b hc)]

/-- Only how the elements of the list compare matters. -/
theorem sortBy_congr {le' : α → α → Bool} {l : List α}
    (h : ∀ a ∈ l, ∀ b ∈ l, le a b = le' a b) : sortBy le l = sortBy le' l := by
  induction l with
  | nil => rfl
  | cons a l ih =>
    have hrest := ih fun b hb c hc =>
      h b (List.mem_cons_of_mem a hb) c (List.mem_cons_of_mem a hc)
    rw [sortBy, sortBy, hrest]
    exact insertBy_congr fun b hb =>
      h a List.mem_cons_self b (List.mem_cons_of_mem a (mem_sortBy.1 hb))

/-- Images are sorted as what they are images of. -/
theorem sortBy_map {β : Type} (le : α → α → Bool) (f : β → α) (l : List β) :
    sortBy le (l.map f) = (sortBy (fun a b => le (f a) (f b)) l).map f := by
  have hinsert (b : β) (l : List β) : insertBy le (f b) (l.map f) =
      (insertBy (fun a b => le (f a) (f b)) b l).map f := by
    induction l with
    | nil => rfl
    | cons c l ih =>
      rw [List.map_cons, insertBy, insertBy, ih]
      split <;> rfl
  induction l with
  | nil => rfl
  | cons b l ih => rw [List.map_cons, sortBy, sortBy, ih, hinsert]

/-- Lists in step that are sorted in one order stay in step. -/
theorem zip_sortBy_perm {β : Type} {le' : β → β → Bool} {l : List α} {m : List β}
    (hlength : l.length = m.length)
    (h : ∀ p ∈ l.zip m, ∀ q ∈ l.zip m, le p.1 q.1 = le' p.2 q.2) :
    ((sortBy le l).zip (sortBy le' m)).Perm (l.zip m) := by
  generalize hpairs : l.zip m = pairs at h
  have hl : sortBy le l = (sortBy (fun p q => le p.1 q.1) pairs).map Prod.fst := by
    rw [← sortBy_map, ← hpairs, List.map_fst_zip (Nat.le_of_eq hlength)]
  have hm : sortBy le' m = (sortBy (fun p q => le p.1 q.1) pairs).map Prod.snd := by
    rw [sortBy_congr h, ← sortBy_map, ← hpairs, List.map_snd_zip (Nat.le_of_eq hlength.symm)]
  rw [hl, hm, List.zip_map']
  exact (List.Perm.of_eq (List.map_id _)).trans (sortBy_perm _ pairs)

/-- Related lists are sorted alike. -/
theorem forall₂_sortBy {α β : Type} {R : α → β → Prop} {le : α → α → Bool} {le' : β → β → Bool}
    (hle : ∀ a b a' b', R a b → R a' b' → le a a' = le' b b') {l : List α} {m : List β}
    (h : List.Forall₂ R l m) : List.Forall₂ R (sortBy le l) (sortBy le' m) := by
  have hinsert {a : α} {b : β} (hab : R a b) {l : List α} {m : List β} (h : List.Forall₂ R l m) :
      List.Forall₂ R (insertBy le a l) (insertBy le' b m) := by
    induction h with
    | nil => exact .cons hab .nil
    | @cons a' b' l m hab' h ih =>
      unfold insertBy
      rw [hle a b a' b' hab hab']
      split
      · exact .cons hab (.cons hab' h)
      · exact .cons hab' ih
  induction h with
  | nil => exact .nil
  | cons hab _ ih => exact hinsert hab ih

/-! ### Positions -/

/-- Elements with their positions, each position once, are those of a list. -/
theorem perm_of_positions {kept : List (Nat × α)} {as : List α}
    (hkeys : (kept.map Prod.fst).Perm (List.range as.length))
    (hkept : ∀ p ∈ kept, as[p.1]? = some p.2) : kept.Perm (as.zipIdx.map Prod.swap) := by
  have hmem (k : Nat) (a : α) : (k, a) ∈ as.zipIdx.map Prod.swap ↔ as[k]? = some a := by
    simp [List.mk_mem_zipIdx_iff_getElem?]
  have hnodup : (kept.map Prod.fst).Nodup := hkeys.nodup_iff.2 List.nodup_range
  have hnodup' : ((as.zipIdx.map Prod.swap).map Prod.fst).Nodup := by
    rw [List.map_map]
    exact (List.zipIdx_map_snd 0 as) ▸ List.nodup_range'
  refine (List.perm_ext_iff_of_nodup (.of_map _ hnodup) (.of_map _ hnodup')).2 ?_
  rintro ⟨k, a⟩
  rw [hmem]
  refine ⟨fun hp => hkept _ hp, fun ha => ?_⟩
  have hk : k ∈ kept.map Prod.fst := by
    obtain ⟨hlt, -⟩ := List.getElem?_eq_some_iff.1 ha
    exact hkeys.mem_iff.2 (List.mem_range.2 hlt)
  obtain ⟨⟨k, b⟩, hp, rfl⟩ := List.mem_map.1 hk
  cases ha.symm.trans (hkept _ hp)
  exact hp

/-- Elements with their positions, each position once, are sorted into the list they are those
of. -/
theorem sortBy_positions {kept : List (Nat × α)} {as : List α}
    (hkeys : (kept.map Prod.fst).Perm (List.range as.length))
    (hkept : ∀ p ∈ kept, as[p.1]? = some p.2) :
    sortBy (fun a b => decide (a.1 ≤ b.1)) kept = as.zipIdx.map Prod.swap := by
  have hsorted : (sortBy (fun a b : Nat × α => decide (a.1 ≤ b.1)) kept).Pairwise
      fun a b => a.1 ≤ b.1 := by
    have horder := pairwise_sortBy (fun a b : Nat × α => decide (a.1 ≤ b.1))
      (fun a b => by simpa using Nat.le_total a.1 b.1)
      (fun a b c hab hbc => by
        simp only [decide_eq_true_eq] at *
        omega) kept
    exact horder.imp fun h => of_decide_eq_true h
  have hplaces : (as.zipIdx.map Prod.swap).Pairwise fun a b : Nat × α => a.1 ≤ b.1 := by
    rw [List.pairwise_map]
    have hrange : (as.zipIdx.map Prod.snd).Pairwise (· < ·) :=
      (List.zipIdx_map_snd 0 as) ▸ List.pairwise_lt_range'
    exact (List.pairwise_map.1 hrange).imp fun h => Nat.le_of_lt h
  have hperm := (sortBy_perm (fun a b : Nat × α => decide (a.1 ≤ b.1)) kept).trans
    (perm_of_positions hkeys hkept)
  refine hperm.eq_of_pairwise (fun a b ha hb hab hba => ?_) hsorted hplaces
  have hkey : a.1 = b.1 := Nat.le_antisymm hab hba
  have ha := hkept a (mem_sortBy.1 ha)
  have hb := hkept b ((perm_of_positions hkeys hkept).mem_iff.2 hb)
  rw [hkey] at ha
  exact Prod.ext hkey (Option.some.inj (ha.symm.trans hb))

/-! ### Keys -/

section Keys

variable {κ : Type} [DecidableEq κ] {key : α → κ} {le : κ → κ → Bool}

/-- An element put into a list comes in front of those with its key. -/
theorem filter_insertBy (hrefl : ∀ k, le k k = true) (a : α) (l : List α) (k : κ) :
    (insertBy (fun a b => le (key a) (key b)) a l).filter (fun b => key b = k) =
      (a :: l).filter fun b => key b = k := by
  induction l with
  | nil => rfl
  | cons b l ih =>
    rw [insertBy]
    split
    · rfl
    · rename_i hab
      -- the element passes another one only if their keys differ
      have hne : ¬(key a = k ∧ key b = k) := fun h => hab (by rw [h.1, h.2, hrefl])
      rw [List.filter_cons, ih]
      by_cases ha : key a = k <;> by_cases hb : key b = k
      · exact absurd ⟨ha, hb⟩ hne
      all_goals simp [ha, hb]

/-- The elements of a key keep their order. -/
theorem filter_sortBy (hrefl : ∀ k, le k k = true) (l : List α) (k : κ) :
    (sortBy (fun a b => le (key a) (key b)) l).filter (fun a => key a = k) =
      l.filter fun a => key a = k := by
  induction l with
  | nil => rfl
  | cons a l ih => rw [sortBy, filter_insertBy hrefl, List.filter_cons, List.filter_cons, ih]

/-- Lists in the order of their keys are equal if each key has the same elements in the same
order. -/
theorem eq_of_filter_key (hrefl : ∀ k, le k k = true)
    (hantisymm : ∀ j k, le j k = true → le k j = true → j = k) {l m : List α}
    (hl : l.Pairwise fun a b => le (key a) (key b) = true)
    (hm : m.Pairwise fun a b => le (key a) (key b) = true)
    (h : ∀ k, (l.filter fun a => key a = k) = m.filter fun a => key a = k) : l = m := by
  have hmem {l m : List α} (h : ∀ k, (l.filter fun a => key a = k) = m.filter fun a => key a = k)
      {a : α} (ha : a ∈ l) : a ∈ m := by
    have hfilter : a ∈ l.filter fun b => key b = key a := by simpa using ha
    rw [h] at hfilter
    exact List.mem_of_mem_filter hfilter
  have hleast {a b : α} {m : List α} (hm : (b :: m).Pairwise fun a b => le (key a) (key b) = true)
      (ha : a ∈ b :: m) : le (key b) (key a) = true := by
    rcases List.mem_cons.1 ha with rfl | ha
    · exact hrefl _
    · exact (List.pairwise_cons.1 hm).1 a ha
  induction l generalizing m with
  | nil =>
    cases m with
    | nil => rfl
    | cons b m => cases hmem (fun k => (h k).symm) (List.mem_cons_self (a := b))
  | cons a l ih =>
    cases m with
    | nil => cases hmem h (List.mem_cons_self (a := a))
    | cons b m =>
      -- the heads have the least key, and so lead the elements of that key
      have hkey : key a = key b :=
        hantisymm _ _ (hleast hl (hmem (fun k => (h k).symm) List.mem_cons_self))
          (hleast hm (hmem h List.mem_cons_self))
      have hheads := h (key b)
      rw [List.filter_cons, List.filter_cons, if_pos (by simpa using hkey), if_pos (by simp)]
        at hheads
      obtain rfl : a = b := (List.cons.inj hheads).1
      refine congrArg (a :: ·)
        (ih (List.pairwise_cons.1 hl).2 (List.pairwise_cons.1 hm).2 fun k => ?_)
      have hk := h k
      rw [List.filter_cons, List.filter_cons] at hk
      split at hk
      · exact (List.cons.inj hk).2
      · exact hk

/-- **Stability.** Two lists are sorted into the same list exactly if each key has the same elements
in the same order. -/
theorem sortBy_eq_iff (le : κ → κ → Bool) (htotal : ∀ j k, le j k = true ∨ le k j = true)
    (hantisymm : ∀ j k, le j k = true → le k j = true → j = k)
    (htrans : ∀ i j k, le i j = true → le j k = true → le i k = true) {l m : List α} :
    sortBy (fun a b => le (key a) (key b)) l = sortBy (fun a b => le (key a) (key b)) m ↔
      ∀ k, (l.filter fun a => key a = k) = m.filter fun a => key a = k := by
  have hrefl (k : κ) : le k k = true := (htotal k k).elim id id
  have hsorted (l : List α) := pairwise_sortBy (fun a b => le (key a) (key b))
    (fun a b => htotal (key a) (key b)) (fun a b c => htrans (key a) (key b) (key c)) l
  constructor
  · intro heq k
    rw [← filter_sortBy hrefl l, heq, filter_sortBy hrefl]
  · intro h
    refine eq_of_filter_key hrefl hantisymm (hsorted l) (hsorted m) fun k => ?_
    rw [filter_sortBy hrefl, filter_sortBy hrefl, h]

end Keys
end TypedSheets
