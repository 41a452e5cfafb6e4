import Mathlib.Data.List.Induction
import Mathlib.Data.List.Perm.Subperm
import TypedSheets.Proofs.Collections

/-!
# Tables by key

What a table holds after it has been put together: from entries set one after the other, and from
the elements of a list under their keys.

## Main definitions

* `Keyed.latest` — the elements behind which no other has the same key.
* `Keyed.Related` — two tables with the same keys and related values.

## Main results

* `Keyed.find?_eq_some_iff` — what is found are the entries.
* `Keyed.mem_entries_update` — a change leaves the other entries alone.
* `Keyed.entries_ofList_of_nodup`, `Keyed.entries_ofList_perm` — tables of entries hold the last
  entry of each key, all of them if no key occurs twice.
* `Keyed.eq_filter_of_mem_groupBy`, `Keyed.flatMap_groupBy_perm` — tables of grouped elements.
* `Keyed.values_groupBy_congr` — elements are grouped alike by keys that tell the same ones apart.
* `Keyed.Related.groupBy` — related elements are grouped alike.
-/

namespace TypedSheets.Keyed

variable {κ α β : Type}

theorem nodup_keys (t : Keyed κ α) : t.keys.Nodup := t.distinct

theorem length_keys (t : Keyed κ α) : t.keys.length = t.size := List.length_map _

theorem length_values (t : Keyed κ α) : t.values.length = t.size := List.length_map _

variable [DecidableEq κ]

/-! ### Single entries -/

theorem lookup_of_mem {k : κ} {a : α} {l : List (κ × α)} (hl : (l.map Prod.fst).Nodup)
    (h : (k, a) ∈ l) : lookup k l = some a := by
  induction l with
  | nil => cases h
  | cons e l ih =>
    obtain ⟨k₀, b⟩ := e
    rw [List.map_cons, List.nodup_cons] at hl
    unfold lookup
    rcases List.mem_cons.1 h with h | h
    · cases h
      rw [if_pos rfl]
    · have hne : k₀ ≠ k := by
        rintro rfl
        exact hl.1 (List.mem_map.2 ⟨_, h, rfl⟩)
      rw [if_neg hne]
      exact ih hl.2 h

/-- What is found are the entries. -/
theorem find?_eq_some_iff {t : Keyed κ α} {k : κ} {a : α} :
    t.find? k = some a ↔ (k, a) ∈ t.entries :=
  ⟨mem_of_find?, lookup_of_mem t.distinct⟩

/-- A key has a value exactly if it is one of the keys. -/
theorem isSome_find?_iff {t : Keyed κ α} {k : κ} : (t.find? k).isSome = true ↔ k ∈ t.keys := by
  constructor
  · intro h
    obtain ⟨a, ha⟩ := Option.isSome_iff_exists.1 h
    exact mem_keys_of_find? ha
  · intro h
    obtain ⟨⟨k', a⟩, he, rfl⟩ := List.mem_map.1 h
    rw [find?_eq_some_iff.2 he]
    rfl

theorem find?_eq_none_iff {t : Keyed κ α} {k : κ} : t.find? k = none ↔ k ∉ t.keys := by
  rw [← isSome_find?_iff]
  cases t.find? k <;> simp

/-- What the entries with a key contribute is what the value of the key does. -/
theorem flatMap_entries_of_key (t : Keyed κ α) (k : κ) (f : κ × α → List β) :
    (t.entries.flatMap fun e => if e.1 = k then f e else []) =
      (t.find? k).toList.flatMap fun a => f (k, a) := by
  have hlist (l : List (κ × α)) (hl : (l.map Prod.fst).Nodup) :
      (l.flatMap fun e => if e.1 = k then f e else []) =
        (lookup k l).toList.flatMap fun a => f (k, a) := by
    induction l with
    | nil => rfl
    | cons e l ih =>
      obtain ⟨k₀, a⟩ := e
      rw [List.map_cons, List.nodup_cons] at hl
      rw [List.flatMap_cons, lookup]
      by_cases hk : k₀ = k
      · subst hk
        have hrest : (l.flatMap fun e => if e.1 = k₀ then f e else []) = [] := by
          refine List.flatMap_eq_nil_iff.2 fun e he => if_neg ?_
          rintro rfl
          exact hl.1 (List.mem_map.2 ⟨e, he, rfl⟩)
        rw [if_pos rfl, if_pos rfl, hrest, List.append_nil, Option.toList_some,
          List.flatMap_singleton]
      · rw [if_neg hk, if_neg hk, List.nil_append, ih hl.2]
  exact hlist t.entries t.distinct

theorem mem_put {k : κ} {a : α} {l : List (κ × α)} {e : κ × α} (h : e ∈ put k a l) :
    e = (k, a) ∨ e ∈ l := by
  induction l with
  | nil => exact .inl (List.mem_singleton.1 h)
  | cons e₀ l ih =>
    obtain ⟨k₀, b⟩ := e₀
    unfold put at h
    split at h
    · rcases List.mem_cons.1 h with h | h
      · exact .inl h
      · exact .inr (List.mem_cons_of_mem _ h)
    · rcases List.mem_cons.1 h with h | h
      · exact .inr (h ▸ List.mem_cons_self ..)
      · exact (ih h).imp id (List.mem_cons_of_mem _)

/-- An entry after insertion is the inserted one or was there before. -/
theorem mem_entries_insert {t : Keyed κ α} {k : κ} {a : α} {e : κ × α}
    (h : e ∈ (t.insert k a).entries) : e = (k, a) ∨ e ∈ t.entries :=
  mem_put h

/-- An entry after a change is the changed one or was there before. -/
theorem mem_entries_update {t : Keyed κ α} {k : κ} {fresh : α} {f : α → α} {e : κ × α}
    (h : e ∈ (t.update k fresh f).entries) :
    e = (k, f ((t.find? k).getD fresh)) ∨ e ∈ t.entries :=
  mem_put h

theorem put_of_not_mem {k : κ} {a : α} {l : List (κ × α)} (h : k ∉ l.map Prod.fst) :
    put k a l = l ++ [(k, a)] := by
  induction l with
  | nil => rfl
  | cons e l ih =>
    obtain ⟨k₀, b⟩ := e
    rw [List.map_cons, List.mem_cons, not_or] at h
    rw [put, if_neg (Ne.symm h.1), ih h.2, List.cons_append]

/-- A new entry is appended. -/
theorem entries_insert_of_not_mem {t : Keyed κ α} {k : κ} {a : α} (h : k ∉ t.keys) :
    (t.insert k a).entries = t.entries ++ [(k, a)] :=
  put_of_not_mem h

theorem find?_update_self (t : Keyed κ α) (k : κ) (fresh : α) (f : α → α) :
    (t.update k fresh f).find? k = some (f ((t.find? k).getD fresh)) :=
  find?_insert_self ..

theorem put_put (k : κ) (a b : α) (l : List (κ × α)) : put k b (put k a l) = put k b l := by
  induction l with
  | nil => simp [put]
  | cons e l ih =>
    obtain ⟨k₀, c⟩ := e
    by_cases h : k₀ = k
    · simp [put, h]
    · simp [put, h, ih]

/-- Of two changes of one value the second starts from what the first has left. -/
theorem update_update (t : Keyed κ α) (k : κ) (fresh : α) (f g : α → α) :
    (t.update k fresh f).update k fresh g = t.update k fresh fun a => g (f a) := by
  have hsecond : (t.update k fresh f).update k fresh g =
      (t.update k fresh f).insert k (g (f ((t.find? k).getD fresh))) := by
    rw [update, find?_update_self, Option.getD_some]
  rw [hsecond]
  exact ext_entries (put_put ..)

/-- What entries contribute, if a change of a value adds to its contribution. -/
theorem flatMap_update_perm (t : Keyed κ α) {k : κ} {fresh : α} {f : α → α}
    {g : κ × α → List β} {more : List β} (hfresh : g (k, fresh) = [])
    (h : ∀ a, (g (k, f a)).Perm (g (k, a) ++ more)) :
    ((t.update k fresh f).entries.flatMap g).Perm (t.entries.flatMap g ++ more) := by
  have hput (l : List (κ × α)) :
      ((put k (f ((lookup k l).getD fresh)) l).flatMap g).Perm (l.flatMap g ++ more) := by
    induction l with
    | nil =>
      have hadded := h fresh
      rw [hfresh] at hadded
      simpa [put, lookup] using hadded
    | cons e l ih =>
      obtain ⟨k₀, a⟩ := e
      by_cases hk : k₀ = k
      · subst hk
        simp only [lookup, put, if_true, Option.getD_some, List.flatMap_cons]
        exact ((h a).append_right _).trans (List.perm_append_right_comm ..)
      · simp only [lookup, put, hk, if_false, List.flatMap_cons, List.append_assoc]
        exact ih.append_left _
  exact hput t.entries

theorem find?_update_of_ne (t : Keyed κ α) {k k' : κ} (fresh : α) (f : α → α) (hne : k' ≠ k) :
    (t.update k fresh f).find? k' = t.find? k' :=
  find?_insert_of_ne _ _ hne

theorem mem_keys_insert {t : Keyed κ α} {k k' : κ} {a : α} :
    k' ∈ (t.insert k a).keys ↔ k' = k ∨ k' ∈ t.keys :=
  mem_keys_put

/-! ### Tables of entries -/

theorem ofList_concat (l : List (κ × α)) (e : κ × α) :
    ofList (l ++ [e]) = (ofList l).insert e.1 e.2 := by
  unfold ofList
  rw [List.foldl_append]
  rfl

theorem mem_keys_ofList {l : List (κ × α)} {k : κ} :
    k ∈ (ofList l).keys ↔ k ∈ l.map Prod.fst := by
  induction l using List.reverseRecOn with
  | nil => rfl
  | append_singleton l e ih =>
    rw [ofList_concat, mem_keys_insert, ih, List.map_append, List.mem_append, List.map_singleton,
      List.mem_singleton, or_comm]

/-- Without repeated keys a table holds its entries as they came. -/
theorem entries_ofList_of_nodup {l : List (κ × α)} (h : (l.map Prod.fst).Nodup) :
    (ofList l).entries = l := by
  induction l using List.reverseRecOn with
  | nil => rfl
  | append_singleton l e ih =>
    rw [List.map_append, List.map_singleton, List.nodup_append] at h
    have hnew : e.1 ∉ (ofList l).keys := by
      rw [mem_keys_ofList]
      intro hmem
      exact h.2.2 _ hmem _ (List.mem_singleton.2 rfl) rfl
    rw [ofList_concat, entries_insert_of_not_mem hnew, ih h.1]

/-- Setting a key puts its new entry in the place of the old one. -/
theorem put_perm {k : κ} {a : α} {l : List (κ × α)} (hl : (l.map Prod.fst).Nodup) :
    (put k a l).Perm ((l.filter fun e => e.1 ≠ k) ++ [(k, a)]) := by
  induction l with
  | nil => exact .refl _
  | cons e l ih =>
    obtain ⟨k₀, b⟩ := e
    rw [List.map_cons, List.nodup_cons] at hl
    unfold put
    split
    · rename_i hk
      subst hk
      have hrest : l.filter (fun e => e.1 ≠ k₀) = l := by
        rw [List.filter_eq_self]
        intro e he
        refine decide_eq_true ?_
        rintro rfl
        exact hl.1 (List.mem_map.2 ⟨e, he, rfl⟩)
      rw [List.filter_cons_of_neg (by simp), hrest]
      exact (List.perm_append_singleton _ _).symm
    · rename_i hk
      rw [List.filter_cons_of_pos (by simpa using hk), List.cons_append]
      exact (ih hl.2).cons _

/-! ### Elements that are kept -/

/-- The elements behind which no other has the same key. -/
def latest (key : β → κ) : List β → List β
  | [] => []
  | b :: l => if key b ∈ l.map key then latest key l else b :: latest key l

section Latest

variable (key : β → κ)

theorem latest_sublist (l : List β) : (latest key l).Sublist l := by
  induction l with
  | nil => exact List.Sublist.slnil
  | cons b l ih =>
    unfold latest
    split
    · exact ih.cons b
    · exact ih.cons_cons b

/-- All elements are kept exactly if no key occurs twice. -/
theorem latest_eq_self_iff {l : List β} : latest key l = l ↔ (l.map key).Nodup := by
  induction l with
  | nil => exact ⟨fun _ => List.nodup_nil, fun _ => rfl⟩
  | cons b l ih =>
    rw [List.map_cons, List.nodup_cons, ← ih, latest]
    split
    · rename_i hb
      refine ⟨fun h => ?_, fun h => absurd hb h.1⟩
      have hlen := (latest_sublist key l).length_le
      rw [h, List.length_cons] at hlen
      omega
    · rename_i hb
      rw [List.cons_inj_right]
      exact ⟨fun h => ⟨hb, h⟩, fun h => h.2⟩

/-- A last element is kept, and displaces those of the same key. -/
theorem latest_concat (l : List β) (b : β) :
    latest key (l ++ [b]) = ((latest key l).filter fun c => key c ≠ key b) ++ [b] := by
  induction l with
  | nil => rfl
  | cons c l ih =>
    rw [List.cons_append, latest, latest, ih, List.map_append, List.map_singleton]
    by_cases hl : key c ∈ l.map key
    · rw [if_pos (List.mem_append_left _ hl), if_pos hl]
    · rw [if_neg hl]
      by_cases hb : key c = key b
      · rw [if_pos (by simp [hb]), List.filter_cons_of_neg (by simpa using hb)]
      · rw [if_neg (by simpa [hb] using hl), List.filter_cons_of_pos (by simpa using hb),
          List.cons_append]

/-- What is kept depends on which keys are equal only. -/
theorem latest_congr {κ' : Type} [DecidableEq κ'] {key' : β → κ'}
    (h : ∀ b c, key b = key c ↔ key' b = key' c) (l : List β) : latest key l = latest key' l := by
  induction l with
  | nil => rfl
  | cons b l ih =>
    have hmem : key b ∈ l.map key ↔ key' b ∈ l.map key' := by
      simp only [List.mem_map, h]
    unfold latest
    simp only [hmem, ih]

/-- Among the elements with one key, those are kept that are kept under a pair of keys. -/
theorem latest_filter {κ' : Type} [DecidableEq κ'] (key' : β → κ') (k : κ) (l : List β) :
    latest key' (l.filter fun b => key b = k) =
      (latest (fun b => (key b, key' b)) l).filter fun b => key b = k := by
  induction l with
  | nil => rfl
  | cons b l ih =>
    by_cases hb : key b = k
    · have hmem : key' b ∈ (l.filter fun c => key c = k).map key' ↔
          (key b, key' b) ∈ l.map fun c => (key c, key' c) := by
        simp only [List.mem_map, List.mem_filter, decide_eq_true_eq, Prod.mk.injEq, hb, and_assoc]
      rw [List.filter_cons_of_pos (by simpa using hb), latest, latest, ih]
      simp only [hmem]
      split
      · rfl
      · rw [List.filter_cons_of_pos (by simpa using hb)]
    · rw [List.filter_cons_of_neg (by simpa using hb), latest, ih]
      split
      · rfl
      · rw [List.filter_cons_of_neg (by simpa using hb)]

end Latest

/-- A table of entries holds the last entry of each key. -/
theorem entries_ofList_perm (l : List (κ × α)) : (ofList l).entries.Perm (latest Prod.fst l) := by
  induction l using List.reverseRecOn with
  | nil => exact .refl _
  | append_singleton l e ih =>
    rw [ofList_concat, latest_concat]
    exact (put_perm (ofList l).distinct).trans ((ih.filter _).append_right [e])

/-- A table of elements under their keys holds the last element of each key. -/
theorem values_ofList_perm (key : β → κ) (l : List β) :
    (ofList (l.map fun b => (key b, b))).values.Perm (latest key l) := by
  have hmap : (latest Prod.fst (l.map fun b => (key b, b))).map Prod.snd = latest key l := by
    induction l with
    | nil => rfl
    | cons b l ih =>
      rw [List.map_cons, latest, latest, List.map_map, ← ih]
      change (if key b ∈ l.map key then _ else _ : List (κ × β)).map Prod.snd = _
      split <;> rfl
  rw [← hmap]
  exact (entries_ofList_perm _).map Prod.snd

/-! ### Changed values -/

/-- A value is changed before it is set or afterwards. -/
theorem mapValues_insert (f : α → β) (t : Keyed κ α) (k : κ) (a : α) :
    (t.insert k a).mapValues f = (t.mapValues f).insert k (f a) := by
  apply ext_entries
  show (put k a t.entries).map _ = put k (f a) (t.entries.map _)
  induction t.entries with
  | nil => rfl
  | cons e l ih =>
    rw [put, List.map_cons, put]
    split
    · rfl
    · rw [List.map_cons, ih]

theorem find?_mapValues (f : α → β) (t : Keyed κ α) (k : κ) :
    (t.mapValues f).find? k = (t.find? k).map f := by
  show lookup k (t.entries.map _) = (lookup k t.entries).map f
  induction t.entries with
  | nil => rfl
  | cons e l ih =>
    rw [List.map_cons, lookup, lookup]
    split
    · rfl
    · exact ih

/-! ### Grouped elements -/

section GroupBy

variable (key : α → κ)

theorem groupBy_concat (l : List α) (a : α) :
    groupBy key (l ++ [a]) = (groupBy key l).update (key a) [] (· ++ [a]) := by
  unfold groupBy
  rw [List.foldl_append]
  rfl

theorem mem_keys_groupBy {l : List α} {k : κ} : k ∈ (groupBy key l).keys ↔ k ∈ l.map key := by
  induction l using List.reverseRecOn with
  | nil => rfl
  | append_singleton l a ih =>
    rw [groupBy_concat, update, mem_keys_insert, ih, List.map_append, List.mem_append,
      List.map_singleton, List.mem_singleton, or_comm]

/-- Under a key stand the elements with that key, in order. -/
theorem find?_groupBy (l : List α) (k : κ) :
    ((groupBy key l).find? k).getD [] = l.filter fun a => key a = k := by
  induction l using List.reverseRecOn with
  | nil => rfl
  | append_singleton l a ih =>
    rw [groupBy_concat, List.filter_append, ← ih]
    by_cases h : key a = k
    · subst h
      rw [find?_update_self, Option.getD_some, List.filter_singleton]
      simp
    · rw [find?_update_of_ne _ _ _ (Ne.symm h), List.filter_singleton]
      simp [h]

/-- Images are grouped as what they are images of. -/
theorem groupBy_map (f : β → α) (l : List β) :
    groupBy key (l.map f) = (groupBy (key ∘ f) l).mapValues (List.map f) := by
  induction l using List.reverseRecOn with
  | nil => rfl
  | append_singleton l b ih =>
    rw [List.map_append, List.map_singleton, groupBy_concat, groupBy_concat, ih, update, update,
      mapValues_insert, find?_mapValues, List.map_append, List.map_singleton, Function.comp_apply]
    cases (groupBy (key ∘ f) l).find? (key (f b)) <;> rfl

/-- Tables whose keys are equal to a key for the same entries are looked up alike. -/
theorem lookup_congr {κ' : Type} [DecidableEq κ'] {k : κ} {k' : κ'} {l : List (κ × α)}
    {m : List (κ' × α)} (h : List.Forall₂ (fun e f => e.2 = f.2 ∧ (e.1 = k ↔ f.1 = k')) l m) :
    lookup k l = lookup k' m := by
  induction h with
  | nil => rfl
  | @cons e f l m hef _ ih =>
    unfold lookup
    by_cases he : e.1 = k
    · rw [if_pos he, if_pos (hef.2.1 he), hef.1]
    · rw [if_neg he, if_neg (mt hef.2.2 he), ih]

/-- Tables whose keys are equal to a key for the same entries are changed in one place. -/
theorem forall₂_put {κ' : Type} [DecidableEq κ'] {R : κ × α → κ' × β → Prop} {k : κ} {k' : κ'}
    {a : α} {b : β} {l : List (κ × α)} {m : List (κ' × β)}
    (h : List.Forall₂ (fun e f => R e f ∧ (e.1 = k ↔ f.1 = k')) l m) (hab : R (k, a) (k', b)) :
    List.Forall₂ R (put k a l) (put k' b m) := by
  induction h with
  | nil => exact .cons hab .nil
  | @cons e f l m hef h ih =>
    unfold put
    by_cases he : e.1 = k
    · rw [if_pos he, if_pos (hef.2.1 he)]
      exact .cons hab (h.imp fun _ _ h => h.1)
    · rw [if_neg he, if_neg (mt hef.2.2 he)]
      exact .cons hef.1 ih

/-- Elements are grouped alike by keys that are equal for the same elements. -/
theorem values_groupBy_congr {κ' : Type} [DecidableEq κ'] {key : α → κ} {key' : α → κ'} {l : List α}
    (h : ∀ a ∈ l, ∀ b ∈ l, key a = key b ↔ key' a = key' b) :
    (groupBy key l).values = (groupBy key' l).values := by
  -- Each key on the one side belongs to the same elements as its partner on the other.
  have hfold : ∀ m ⊆ l, ∀ {t : Keyed κ (List α)} {u : Keyed κ' (List α)},
      List.Forall₂ (fun e f => e.2 = f.2 ∧ ∀ a ∈ l, e.1 = key a ↔ f.1 = key' a)
        t.entries u.entries →
      (m.foldl (fun t a => t.update (key a) [] (· ++ [a])) t).values =
        (m.foldl (fun t a => t.update (key' a) [] (· ++ [a])) u).values := by
    intro m
    induction m with
    | nil => exact fun _ _ _ htu => (htu.imp fun _ _ he => he.1).map_eq
    | cons a m ih =>
      intro hsub t u htu
      have ha : a ∈ l := hsub List.mem_cons_self
      have hfind : t.find? (key a) = u.find? (key' a) :=
        lookup_congr (htu.imp fun _ _ he => ⟨he.1, he.2 a ha⟩)
      refine ih (fun b hb => hsub (List.mem_cons_of_mem a hb)) ?_
      show List.Forall₂ _ (put (key a) _ t.entries) (put (key' a) _ u.entries)
      rw [hfind]
      exact forall₂_put (htu.imp fun _ _ he => ⟨he, he.2 a ha⟩) ⟨rfl, fun b hb => h a ha b hb⟩
  exact hfold l (List.Subset.refl l) .nil

/-- A group is the elements with its key. -/
theorem eq_filter_of_mem_groupBy {l : List α} {e : κ × List α} (h : e ∈ (groupBy key l).entries) :
    e.2 = l.filter fun a => key a = e.1 := by
  have hfind : (groupBy key l).find? e.1 = some e.2 := find?_eq_some_iff.2 h
  rw [← find?_groupBy, hfind, Option.getD_some]

/-- Elements sorted by their keys, where all keys are given once, are the elements up to their
order. -/
theorem flatMap_filter_perm {ks : List κ} (hks : ks.Nodup) {l : List α} (hl : ∀ a ∈ l, key a ∈ ks) :
    (ks.flatMap fun k => l.filter fun a => key a = k).Perm l := by
  induction ks generalizing l with
  | nil =>
    have hnil : l = [] := List.eq_nil_iff_forall_not_mem.2 fun a ha => nomatch hl a ha
    rw [hnil]
    exact .refl _
  | cons k ks ih =>
    rw [List.nodup_cons] at hks
    have hother : (ks.flatMap fun k' => l.filter fun a => key a = k') =
        ks.flatMap fun k' =>
          (l.filter fun a => !decide (key a = k)).filter fun a => key a = k' := by
      refine List.flatMap_congr fun k' hk' => ?_
      rw [List.filter_filter]
      refine List.filter_congr fun a _ => ?_
      by_cases ha : key a = k'
      · have hne : key a ≠ k := by
          rintro rfl
          exact hks.1 (ha ▸ hk')
        simp [ha, ha ▸ hne]
      · simp [ha]
    rw [List.flatMap_cons, hother]
    refine ((ih hks.2 ?_).append_left _).trans (List.filter_append_perm _ l)
    intro a ha
    obtain ⟨ha, hne⟩ := List.mem_filter.1 ha
    exact (List.mem_cons.1 (hl a ha)).resolve_left (by simpa using hne)

/-- If a function leaves of every group what `l'` has of it, then it leaves `l'` of all groups, up
to the order. -/
theorem flatMap_groupBy_perm {l l' : List α} {f : List α → List α} (hl : l' ⊆ l)
    (hf : ∀ k, (f (l.filter fun a => key a = k)).Perm (l'.filter fun a => key a = k)) :
    ((groupBy key l).values.flatMap f).Perm l' := by
  have hvalues : ((groupBy key l).values.flatMap f).Perm
      ((groupBy key l).keys.flatMap fun k => l'.filter fun a => key a = k) := by
    unfold values keys
    rw [List.flatMap_map, List.flatMap_map]
    refine List.Perm.flatMap_left _ fun e he => ?_
    rw [eq_filter_of_mem_groupBy key he]
    exact hf e.1
  refine hvalues.trans (flatMap_filter_perm key (groupBy key l).nodup_keys fun a ha => ?_)
  exact (mem_keys_groupBy key).2 (List.mem_map_of_mem (hl ha))

end GroupBy

/-! ### Related tables -/

section Related

variable {κ α β : Type}

/-- Two tables with the same keys in the same order, and related values. -/
def Related (R : α → β → Prop) (t : Keyed κ α) (u : Keyed κ β) : Prop :=
  List.Forall₂ (fun e f => e.1 = f.1 ∧ R e.2 f.2) t.entries u.entries

variable {R : α → β → Prop} {t : Keyed κ α} {u : Keyed κ β}

theorem Related.keys_eq (h : t.Related R u) : t.keys = u.keys :=
  (h.imp fun _ _ he => he.1).map_eq

theorem Related.values (h : t.Related R u) : List.Forall₂ R t.values u.values := by
  rw [Keyed.values, Keyed.values, List.forall₂_map_left_iff, List.forall₂_map_right_iff]
  exact h.imp fun _ _ he => he.2

theorem Related.mapValues {α' β' : Type} {R' : α' → β' → Prop} {f : α → α'} {g : β → β'}
    (h : t.Related R u) (hfg : ∀ a b, R a b → R' (f a) (g b)) :
    (t.mapValues f).Related R' (u.mapValues g) := by
  show List.Forall₂ _ (t.entries.map _) (u.entries.map _)
  rw [List.forall₂_map_left_iff, List.forall₂_map_right_iff]
  exact h.imp fun _ _ he => ⟨he.1, hfg _ _ he.2⟩

variable [DecidableEq κ]

theorem Related.find? (h : t.Related R u) (k : κ) : Option.Rel R (t.find? k) (u.find? k) :=
  rel_find? (R := fun _ => R) h k

theorem Related.insert (h : t.Related R u) (k : κ) {a : α} {b : β} (hab : R a b) :
    (t.insert k a).Related R (u.insert k b) := by
  show List.Forall₂ _ (put k a t.entries) (put k b u.entries)
  unfold Related at h
  generalize t.entries = l, u.entries = m at h
  induction h with
  | nil => exact .cons ⟨rfl, hab⟩ .nil
  | @cons e f l m hef h ih =>
    obtain ⟨k₀, a₀⟩ := e
    obtain ⟨k₁, b₀⟩ := f
    obtain ⟨rfl, hef⟩ := hef
    unfold put
    split
    · exact .cons ⟨rfl, hab⟩ h
    · exact .cons ⟨rfl, hef⟩ ih

/-- Related changes of related values keep tables related. -/
theorem Related.update (h : t.Related R u) (k : κ) {a : α} {b : β} (hab : R a b) {f : α → α}
    {g : β → β} (hfg : ∀ a b, R a b → R (f a) (g b)) :
    (t.update k a f).Related R (u.update k b g) := by
  refine h.insert k (hfg _ _ ?_)
  have hfind := h.find? k
  generalize t.find? k = o, u.find? k = o' at hfind
  cases hfind with
  | none => exact hab
  | some hfound => exact hfound

/-- Related elements are grouped alike. -/
theorem Related.groupBy {R : α → β → Prop} {key : α → κ} {key' : β → κ} {l : List α} {m : List β}
    (h : List.Forall₂ R l m) (hkey : ∀ a b, R a b → key a = key' b) :
    (groupBy key l).Related (List.Forall₂ R) (groupBy key' m) := by
  have hfold : ∀ {t : Keyed κ (List α)} {u : Keyed κ (List β)}, t.Related (List.Forall₂ R) u →
      (l.foldl (fun t a => t.update (key a) [] (· ++ [a])) t).Related (List.Forall₂ R)
        (m.foldl (fun t b => t.update (key' b) [] (· ++ [b])) u) := by
    induction h with
    | nil => exact id
    | @cons a b l m hab _ ih =>
      intro t u htu
      refine ih ?_
      dsimp only
      rw [hkey a b hab]
      exact htu.update (key' b) .nil fun _ _ hl => List.rel_append hl (.cons hab .nil)
  exact hfold .nil

end Related

end TypedSheets.Keyed
