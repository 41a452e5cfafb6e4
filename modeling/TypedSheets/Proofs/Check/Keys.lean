import TypedSheets.Proofs.Check.Silent
import TypedSheets.Proofs.Keyed

/-!
# What the check of keys finds out

When the check of keys is silent, no two constants have one name and no two rows of a table have
one key, where rows with an empty primary key count as rows without a key.

## Main results

* `Check.nodup_of_repeated` — without repeated keys, no key occurs twice.
* `Check.places_repeated_congr` — keys that tell the same rows apart are repeated in one way.
* `Constants.values_ofList` — constants with different names are all kept.
* `Check.single_of_keys`, `Check.not_nullable_of_keys` — keys are declared once and not nullable.
* `Check.nodup_consts_of_keys` — the constants have different names.
* `Check.nodup_keyTexts_of_keys` — the rows of a table have different keys.
-/

namespace TypedSheets

open Recall

namespace Check

/-- Without repeated keys, no key occurs twice. -/
theorem nodup_of_repeated {κ : Type} [DecidableEq κ] {keys : List (κ × Location)}
    (h : repeated keys = []) : (keys.map Prod.fst).Nodup := by
  unfold repeated at h
  rw [List.map_eq_nil_iff, List.filter_eq_nil_iff] at h
  rw [List.nodup_iff_count]
  intro k
  by_cases hk : k ∈ keys.map Prod.fst
  · rw [← Keyed.mem_keys_groupBy Prod.fst] at hk
    obtain ⟨e, he, rfl⟩ := List.mem_map.1 hk
    have hle := h e he
    rw [Keyed.eq_filter_of_mem_groupBy _ he, decide_eq_true_eq, Nat.not_lt] at hle
    rw [List.count_eq_length_filter, List.filter_map, List.length_map]
    exact hle
  · rw [List.count_eq_zero_of_not_mem hk]
    exact Nat.zero_le 1

section Places

variable {β κ κ' : Type} [DecidableEq κ] [DecidableEq κ']

/-- The places of repeated keys are those of the groups of several elements. -/
theorem places_repeated (key : β → κ) (place : β → Location) (l : List β) :
    (repeated (l.map fun b => (key b, place b))).map Prod.snd =
      ((Keyed.groupBy key l).values.filter fun bs => 1 < bs.length).map (List.map place) := by
  have hentries : (Keyed.groupBy Prod.fst (l.map fun b => (key b, place b))).entries =
      (Keyed.groupBy key l).entries.map fun e => (e.1, e.2.map fun b => (key b, place b)) := by
    rw [Keyed.groupBy_map]
    rfl
  rw [repeated, hentries, List.filter_map, List.map_map, List.map_map, Keyed.values,
    List.filter_map, List.map_map]
  simp [Function.comp_def]

/-- Keys that are equal for the same rows are repeated in the same places. -/
theorem places_repeated_congr {R : κ → κ' → Prop} {keys : List (κ × Location)}
    {keys' : List (κ' × Location)}
    (h : List.Forall₂ (fun k k' => R k.1 k'.1 ∧ k.2 = k'.2) keys keys')
    (hR : ∀ {a a' b b'}, R a a' → R b b' → (a = b ↔ a' = b')) :
    (repeated keys).map Prod.snd = (repeated keys').map Prod.snd := by
  obtain ⟨hlength, hmem⟩ := List.forall₂_iff_zip.1 h
  have hkeys : (keys.zip keys').map (fun p => (p.1.1, p.1.2)) = keys :=
    List.map_fst_zip (Nat.le_of_eq hlength)
  have hkeys' : (keys.zip keys').map (fun p => (p.2.1, p.1.2)) = keys' := by
    have hplace : ∀ p ∈ keys.zip keys', (p.2.1, p.1.2) = p.2 := fun p hp =>
      Prod.ext rfl (hmem hp).2
    rw [List.map_congr_left hplace, List.map_snd_zip (Nat.le_of_eq hlength.symm)]
  calc (repeated keys).map Prod.snd
      = (repeated ((keys.zip keys').map fun p => (p.1.1, p.1.2))).map Prod.snd := by rw [hkeys]
    _ = (repeated ((keys.zip keys').map fun p => (p.2.1, p.1.2))).map Prod.snd := by
      rw [places_repeated, places_repeated,
        Keyed.values_groupBy_congr fun p hp q hq => hR (hmem hp).1 (hmem hq).1]
    _ = (repeated keys').map Prod.snd := by rw [hkeys']

end Places

variable {s : Session} {w : Workbook} {I : Condition}

/-- What a silent check of keys has found out about a table. -/
theorem nil_of_keys (h : s.Respects I) (hg : ∀ item ∈ keys.items s w, Gives I item.run (.ok []))
    {t : Schema} (ht : t ∈ s.schemas.values) :
    declarationFaults s w t = [] ∧ duplicateRows s t = [] := by
  have hitem := hg _ (List.mem_append_left _ (List.mem_map.2 ⟨t, ht, rfl⟩))
  have hk : Keeps I (combinedKeys s w t).run := by
    refine Keeps.bind_run (Keeps.mapM_run fun c _ => ?_) fun _ => Keeps.pure _
    exact Keeps.bind_run ((passedOn_asks.hasEnumRoot c.type).respects h) fun _ => Keeps.pure _
  obtain ⟨combined, -, hitem⟩ := hitem.bind_ok hk
  obtain ⟨hfirst, hrows⟩ := List.append_eq_nil_iff.1 hitem.pure_ok
  exact ⟨(List.append_eq_nil_iff.1 hfirst).1, hrows⟩

theorem length_le_of_severalKeys {table kind : String} {location : Option Location}
    {columns : List SchemaColumn} (h : severalKeys table kind location columns = []) :
    columns.length ≤ 1 := by
  unfold severalKeys at h
  split at h
  · assumption
  · cases h

/-- If the check of keys is silent, a table has at most one primary key and one group key. -/
theorem single_of_keys (h : s.Respects I) (hg : ∀ item ∈ keys.items s w, Gives I item.run (.ok []))
    {t : Schema} (ht : t ∈ s.schemas.values) :
    (t.columns.values.filter (·.isPrimaryKey)).length ≤ 1 ∧
      (t.columns.values.filter (·.isGroupKey)).length ≤ 1 := by
  obtain ⟨hseveral, -⟩ := List.append_eq_nil_iff.1 (nil_of_keys h hg ht).1
  obtain ⟨hprimary, hgroup⟩ := List.append_eq_nil_iff.1 hseveral
  exact ⟨length_le_of_severalKeys hprimary, length_le_of_severalKeys hgroup⟩

/-- If the check of keys is silent, no key column is declared nullable. -/
theorem not_nullable_of_keys (h : s.Respects I)
    (hg : ∀ item ∈ keys.items s w, Gives I item.run (.ok [])) {t : Schema}
    (ht : t ∈ s.schemas.values) {k : SchemaColumn} (hk : k ∈ t.columns.values)
    (hkey : k.expr.isKey = true) : k.expr.nullable = false := by
  obtain ⟨-, hnullable⟩ := List.append_eq_nil_iff.1 (nil_of_keys h hg ht).1
  rw [List.map_eq_nil_iff, List.filter_eq_nil_iff] at hnullable
  rw [← Bool.not_eq_true]
  exact hnullable k (List.mem_filter.2 ⟨hk, hkey⟩)

/-- If the check of keys is silent, no two constants have one name. -/
theorem nodup_consts_of_keys (hg : ∀ item ∈ keys.items s w, Gives I item.run (.ok [])) :
    (w.consts.map fun c => (c.table, c.name)).Nodup := by
  have hitem := hg _ (List.mem_append_right _ (List.mem_singleton.2 rfl))
  have hnil := List.map_eq_nil_iff.1 hitem.pure_ok
  have hnodup := nodup_of_repeated hnil
  rwa [List.map_map] at hnodup

/-- The keys of a table without their places, row by row. -/
theorem map_fst_keysOf {t : Schema} {primary : SchemaColumn} (hp : t.primaryKey? = some primary) :
    (keysOf s t).map Prod.fst =
      (s.data.rowsOf t.name).filterMap (keyText? primary t.groupKey?) := by
  unfold keysOf TableData.rowsOf
  rw [hp, List.map_flatMap, List.filterMap_flatMap]
  congr
  funext sheet
  rw [List.map_filterMap]
  congr
  funext row
  rw [Option.map_map]
  exact Option.map_id'

/-- If the check of keys is silent, no two rows of a table with a primary key that is not empty have
one key. -/
theorem nodup_keyTexts_of_keys (h : s.Respects I)
    (hg : ∀ item ∈ keys.items s w, Gives I item.run (.ok [])) {t : Schema}
    (ht : t ∈ s.schemas.values) {primary : SchemaColumn} (hp : t.primaryKey? = some primary) :
    ((s.data.rowsOf t.name).filterMap (keyText? primary t.groupKey?)).Nodup := by
  have hnodup := nodup_of_repeated (List.map_eq_nil_iff.1 (nil_of_keys h hg ht).2)
  rwa [map_fst_keysOf hp] at hnodup

end Check

namespace Constants

/-- Constants with different names are all kept, in order. -/
theorem values_ofList {l : List Constant} (h : (l.map fun c => (c.table, c.name)).Nodup) :
    (ofList l).values = l := by
  have hentries : (ofList l).entries = l.map fun c => ((c.table, c.name), c) := by
    induction l using List.reverseRecOn with
    | nil => rfl
    | append_singleton l c ih =>
      rw [List.map_append, List.map_singleton, List.nodup_append] at h
      have hih := ih h.1
      have hnew : (c.table, c.name) ∉ (ofList l).keys := by
        unfold Keyed.keys
        rw [hih, List.map_map]
        intro hmem
        exact h.2.2 _ hmem _ (List.mem_singleton.2 rfl) rfl
      have hstep : ofList (l ++ [c]) = (ofList l).declare c := by
        unfold ofList
        rw [List.foldl_append]
        rfl
      rw [hstep, List.map_append, ← hih]
      unfold declare
      have hcontains : (ofList l).contains (c.table, c.name) = false := by
        unfold Keyed.contains
        rw [Keyed.find?_eq_none_iff.2 hnew]
        rfl
      rw [hcontains]
      exact Keyed.entries_insert_of_not_mem hnew
  unfold Keyed.values
  rw [hentries, List.map_map]
  exact List.map_id l

end Constants

end TypedSheets
