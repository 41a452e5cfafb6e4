import TypedSheets.Proofs.Compilation.Keys
import TypedSheets.Proofs.View.Arranging

/-!
# Views of a compilation

A view holds the rows of all tables of its group, without the columns that the scope does not see,
but of the rows with the same texts of keys only the last one. The keys are those of the owner of
the group. They tell the rows of one table apart as long as they are seen and not empty; rows of
different tables are not compared by any check, nor are rows whose primary key is empty.

## Main definitions

* `Schema.sees`, `Schema.seen` — the columns of a table and the values of a row that a scope sees.
* `Compiled.seenTables`, `Compiled.seenRows` — the tables and the rows of a group that a scope sees.
* `Compiled.Regular` — what the checks have found out about the rows of a compilation.
* `Compiled.Shows` — what a view holds.

## Main results

* `Compiled.Regular.separates` — keys that are seen and not empty tell the rows of a table apart.
* `Workbook.Compiles.shows` — what the views of a compilation hold.
* `Workbook.losses_hidden` — rows that a view does not hold.
-/

namespace TypedSheets

/-! ### What a scope sees -/

namespace Schema

variable (t : Schema) (scope : Scope)

/-- Whether a scope sees a column of a table. -/
def sees (column : String) : Bool :=
  (t.columns.find? column).any (·.scope.contains scope)

/-- The values of a row that a scope sees. -/
def seen (r : CastRow) : List (String × Value) :=
  r.values.entries.filter fun e => t.sees scope e.1

/-- A table reduced to the columns that a scope sees. -/
def reduced : Schema :=
  { t with columns := t.columns.filterValues (·.scope.contains scope) }

theorem keys_reduced : (t.reduced scope).columns.keys = t.columns.keys.filter (t.sees scope) := by
  unfold Keyed.keys
  rw [List.filter_map]
  refine congrArg (List.map Prod.fst) (List.filter_congr fun e he => ?_)
  have hfind : t.columns.find? e.1 = some e.2 := Keyed.find?_eq_some_iff.2 he
  simp [sees, hfind]

variable {t scope}

/-- A row with the columns of a table is projected to the values that the scope sees. -/
theorem entries_project {r : CastRow} (hr : r.values.keys = t.columns.keys) :
    (Compiled.project (t.reduced scope).columns.keys r).entries = t.seen scope r := by
  have hseen : ((t.reduced scope).columns.keys.filterMap fun name =>
      (r.values.find? name).map fun value => (name, value)) = t.seen scope r := by
    rw [keys_reduced, ← hr]
    unfold Keyed.keys seen
    rw [List.filter_map, List.filterMap_map]
    refine (List.filterMap_congr fun e he => ?_).trans List.filterMap_some
    have hfind : r.values.find? e.1 = some e.2 :=
      Keyed.find?_eq_some_iff.2 (List.mem_of_mem_filter he)
    simp [hfind]
  unfold Compiled.project
  rw [hseen]
  refine Keyed.entries_ofList_of_nodup ?_
  exact r.values.nodup_keys.sublist (List.filter_sublist.map Prod.fst)

/-- The text of a key that the scope sees is that of its value in the row. -/
theorem keyTextIn_project {r : CastRow} (hr : r.values.keys = t.columns.keys) {column : String}
    {v : Value} (hv : r.values.find? column = some v) (hc : t.sees scope column = true) :
    keyTextIn column (Compiled.project (t.reduced scope).columns.keys r) = v.text := by
  have hfind : (Compiled.project (t.reduced scope).columns.keys r).find? column = some v := by
    rw [Keyed.find?_eq_some_iff, entries_project hr]
    exact List.mem_filter.2 ⟨Keyed.find?_eq_some_iff.1 hv, hc⟩
  unfold keyTextIn
  rw [hfind]

end Schema

namespace Compiled

variable (c : Compiled) (group : String) (scope : Scope)

/-- The tables of a group that have columns which a scope sees. -/
def seenTables : List Schema :=
  (c.schemas.inGroup group).filter fun t => t.columns.keys.any (t.sees scope)

/-- The rows of the tables of a group, with the values that a scope sees. -/
def seenRows : List (List (String × Value)) :=
  (c.seenTables group scope).flatMap fun t => (c.data.rowsOf t.name).map (t.seen scope)

/-- What the checks have found out about the tables and rows of a compilation. -/
structure Regular : Prop where
  /-- Tables and columns are entered under their names. -/
  named : c.schemas.Named
  /-- Rows have the columns of their table. -/
  keys (t : Schema) (ht : t ∈ c.schemas.values) (r : CastRow) (hr : r ∈ c.data.rowsOf t.name) :
    r.values.keys = t.columns.keys
  /-- A table has at most one key of each kind. -/
  single (t : Schema) (ht : t ∈ c.schemas.values) :
    (t.columns.values.filter (·.isPrimaryKey)).length ≤ 1 ∧
      (t.columns.values.filter (·.isGroupKey)).length ≤ 1
  /-- No two rows of a table have the same keys. -/
  distinct (t : Schema) (ht : t ∈ c.schemas.values) :
    (c.data.rowsOf t.name).Pairwise fun a b => ¬ t.SameKey a b

variable {c group scope}

namespace Regular

variable (h : c.Regular)

include h

/-- A table is seen reduced to its columns that are seen, if there are some. -/
theorem visible?_eq {t : Schema} (ht : t ∈ c.schemas.values) : c.visible? scope t.name =
    if t.columns.keys.any (t.sees scope) then some (t.reduced scope) else none := by
  have hempty : (t.columns.filterValues (·.scope.contains scope)).isEmpty =
      !t.columns.keys.any (t.sees scope) := by
    have hkeys := congrArg List.isEmpty (t.keys_reduced scope)
    unfold Keyed.keys at hkeys
    rw [List.isEmpty_map] at hkeys
    refine hkeys.trans ?_
    rw [Bool.eq_iff_iff]
    simp [List.filter_eq_nil_iff, Keyed.keys]
  unfold visible? Schemas.scoped?
  rw [h.named.find?_name ht, Option.bind_some]
  simp only [ScopeFilter.selects, hempty]
  cases t.columns.keys.any (t.sees scope) <;> rfl

/-- The rows of a group that are arranged are the rows that the scope sees. -/
theorem scopedRows_eq : c.scopedRows group scope = (c.seenTables group scope).flatMap fun t =>
    (c.data.rowsOf t.name).map (project (t.reduced scope).columns.keys) := by
  unfold scopedRows seenTables
  rw [List.flatMap_filter]
  refine List.flatMap_congr fun t ht => ?_
  rw [h.visible?_eq (List.mem_of_mem_filter ht)]
  split <;> simp_all

theorem eq_reduced {t owner : Schema} (ht : t ∈ c.schemas.values)
    (hv : c.visible? scope t.name = some owner) :
    t.columns.keys.any (t.sees scope) = true ∧ owner = t.reduced scope := by
  rw [h.visible?_eq ht] at hv
  split at hv
  · rename_i hany
    cases hv
    exact ⟨hany, rfl⟩
  · cases hv

/-- The owner of a group is a table of the group that the scope sees, reduced to what it sees. -/
theorem owner_eq {owner : Schema} (ho : c.owner? group scope = some owner) :
    ∃ t ∈ c.seenTables group scope, owner = t.reduced scope := by
  have hmem {t : Schema} (ht : t ∈ c.schemas.values) (hg : (t.group == group) = true)
      (hany : t.columns.keys.any (t.sees scope) = true) : t ∈ c.seenTables group scope :=
    List.mem_filter.2 ⟨List.mem_filter.2 ⟨ht, hg⟩, hany⟩
  rcases Option.or_eq_some_iff.1 ho with ho | ⟨-, ho⟩
  · obtain ⟨hv, hg⟩ := Option.filter_eq_some_iff.1 ho
    cases hfind : c.schemas.find? group with
    | none =>
      unfold visible? Schemas.scoped? at hv
      rw [hfind] at hv
      cases hv
    | some t =>
      have ht : t ∈ c.schemas.values := Keyed.mem_values_of_find? hfind
      rw [← h.named.name_eq hfind] at hv
      obtain ⟨hany, rfl⟩ := h.eq_reduced ht hv
      exact ⟨t, hmem ht hg hany, rfl⟩
  · obtain ⟨t, ht, hv⟩ := List.exists_of_findSome?_eq_some ho
    obtain ⟨ht, hg⟩ := List.mem_filter.1 ht
    obtain ⟨hany, howner⟩ := h.eq_reduced ht hv
    exact ⟨t, hmem ht hg hany, howner⟩

/-- The rows that are arranged are the rows that the scope sees. -/
theorem entries_scopedRows :
    (c.scopedRows group scope).map (·.entries) = c.seenRows group scope := by
  rw [h.scopedRows_eq, List.map_flatMap]
  refine List.flatMap_congr fun t ht => ?_
  have ht : t ∈ c.schemas.values := List.mem_of_mem_filter (List.mem_of_mem_filter ht)
  rw [List.map_map]
  exact List.map_congr_left fun r hr => Schema.entries_project (h.keys t ht r hr)

/-- A row has a value for every key of its table, whose text is found in what the scope sees. -/
theorem exists_text {t : Schema} (ht : t ∈ c.schemas.values) {k : SchemaColumn} (hk : t.IsKey k)
    (hs : t.sees scope k.name = true) {r : CastRow} (hr : r ∈ c.data.rowsOf t.name) :
    ∃ v, r.values.find? k.name = some v ∧
      keyTextIn k.name (project (t.reduced scope).columns.keys r) = v.text := by
  have hkeys := h.keys t ht r hr
  have hvalue : (r.values.find? k.name).isSome = true := by
    rw [Keyed.isSome_find?_iff, hkeys, (h.named.columns t ht).keys_eq]
    exact List.mem_map_of_mem hk.mem
  obtain ⟨v, hv⟩ := Option.isSome_iff_exists.1 hvalue
  exact ⟨v, hv, Schema.keyTextIn_project hkeys hv hs⟩

end Regular

end Compiled

/-! ### Keys that are seen -/

namespace Schema

variable {t : Schema} {scope : Scope} {k : SchemaColumn}

/-- If only one element passes a test, then the first that passes it is the same with and without
the elements that are filtered out. -/
theorem find?_filter_eq_some_iff {l : List SchemaColumn} {p q : SchemaColumn → Bool}
    (hl : (l.filter q).length ≤ 1) :
    (l.filter p).find? q = some k ↔ l.find? q = some k ∧ p k = true := by
  have hback (k : SchemaColumn) (h : (l.filter p).find? q = some k) :
      l.find? q = some k ∧ p k = true := by
    obtain ⟨hmem, hp⟩ := List.mem_filter.1 (List.mem_of_find?_eq_some h)
    have hk : k ∈ l.filter q := List.mem_filter.2 ⟨hmem, List.find?_some h⟩
    refine ⟨?_, hp⟩
    rw [← List.head?_filter]
    match l.filter q, hl, hk with
    | [], _, hk => cases hk
    | [k'], _, hk => rw [List.mem_singleton.1 hk, List.head?_cons]
    | _ :: _ :: _, hl, _ => simp at hl
  refine ⟨hback k, fun ⟨h, hp⟩ => ?_⟩
  have hsome : ((l.filter p).find? q).isSome = true := by
    rw [List.find?_isSome]
    exact ⟨k, List.mem_filter.2 ⟨List.mem_of_find?_eq_some h, hp⟩, List.find?_some h⟩
  obtain ⟨k', hk'⟩ := Option.isSome_iff_exists.1 hsome
  rw [← h, (hback k' hk').1]
  exact hk'

theorem values_reduced :
    (t.reduced scope).columns.values = t.columns.values.filter (·.scope.contains scope) := by
  unfold Keyed.values
  rw [List.filter_map]
  rfl

theorem sees_name (hn : t.Named) (hk : k ∈ t.columns.values) :
    t.sees scope k.name = k.scope.contains scope := by
  rw [sees, hn.find?_name hk, Option.any_some]

/-- The key of a kind in a reduced table is that of the table, if the scope sees it. -/
theorem find?_reduced_iff (hn : t.Named) {q : SchemaColumn → Bool}
    (h : (t.columns.values.filter q).length ≤ 1) :
    (t.reduced scope).columns.values.find? q = some k ↔
      t.columns.values.find? q = some k ∧ t.sees scope k.name = true := by
  rw [values_reduced, find?_filter_eq_some_iff h]
  refine and_congr_right fun hk => ?_
  rw [sees_name hn (List.mem_of_find?_eq_some hk)]

/-- A scope that sees the primary key of a table sees its group key too, and no empty primary
key. -/
def KeysSeen (t : Schema) (scope : Scope) (rows : List CastRow) : Prop :=
  ∀ p, t.primaryKey? = some p → t.sees scope p.name = true →
    (∀ g, t.groupKey? = some g → t.sees scope g.name = true) ∧
      ∀ r ∈ rows, r.values.find? p.name ≠ some .null

end Schema

namespace Compiled

variable {c : Compiled} {scope : Scope}

/-- Rows have the same keys if what is seen of them has the same texts of keys. -/
theorem Regular.sameKey (h : c.Regular) {t : Schema} (ht : t ∈ c.schemas.values)
    (hkeys : t.KeysSeen scope (c.data.rowsOf t.name)) {p : SchemaColumn}
    (hp : (t.reduced scope).primaryKey? = some p) {a b : CastRow}
    (ha : a ∈ c.data.rowsOf t.name) (hb : b ∈ c.data.rowsOf t.name)
    (heq : (t.reduced scope).keysIn p (project (t.reduced scope).columns.keys a) =
      (t.reduced scope).keysIn p (project (t.reduced scope).columns.keys b)) : t.SameKey a b := by
  have hn := h.named.columns t ht
  obtain ⟨hp, hseen⟩ := (Schema.find?_reduced_iff hn (h.single t ht).1).1 hp
  obtain ⟨hgroup, hfilled⟩ := hkeys p hp hseen
  obtain ⟨hgroups, hprimaries⟩ := Prod.mk.injEq .. ▸ heq
  refine ⟨?_, fun g hg => ?_⟩
  · obtain ⟨u, hu, hut⟩ := h.exists_text ht (.inl hp) hseen ha
    obtain ⟨v, hv, hvt⟩ := h.exists_text ht (.inl hp) hseen hb
    refine ⟨p, u, v, hp, hu, hv, ?_, ?_, ?_⟩
    · rintro rfl
      exact hfilled a ha hu
    · rintro rfl
      exact hfilled b hb hv
    · rw [← hut, ← hvt]
      exact hprimaries
  · obtain ⟨u, hu, hut⟩ := h.exists_text ht (.inr hg) (hgroup g hg) ha
    obtain ⟨v, hv, hvt⟩ := h.exists_text ht (.inr hg) (hgroup g hg) hb
    refine ⟨u, v, hu, hv, ?_⟩
    have hreduced : (t.reduced scope).groupKey? = some g :=
      (Schema.find?_reduced_iff hn (h.single t ht).2).2 ⟨hg, hgroup g hg⟩
    rw [hreduced] at hgroups
    rw [← hut, ← hvt]
    exact Option.some.inj hgroups

/-- Keys that are seen and not empty tell the rows of a table apart. -/
theorem Regular.separates (h : c.Regular) {t : Schema} (ht : t ∈ c.schemas.values)
    (hkeys : t.KeysSeen scope (c.data.rowsOf t.name)) : (t.reduced scope).Separates
      ((c.data.rowsOf t.name).map (project (t.reduced scope).columns.keys)) := by
  intro p hp
  unfold List.Nodup
  rw [List.map_map, List.pairwise_map]
  refine (h.distinct t ht).imp_of_mem ?_
  intro a b ha hb hne heq
  exact hne (h.sameKey ht hkeys hp ha hb heq)

/-! ### Views -/

/-- What a view of a group holds, with the keys of the owner of the group. -/
structure Shows (c : Compiled) (group : String) (scope : Scope) (owner : Schema) (v : View) :
    Prop where
  /-- The rows that are arranged are the rows of the group, with the values that the scope sees. -/
  seen : (c.scopedRows group scope).map (·.entries) = c.seenRows group scope
  /-- Of the rows with the same keys the last one is kept. -/
  kept : v.rows.Perm (owner.kept (c.scopedRows group scope))
  /-- The size of the view is the number of its rows. -/
  size : v.size = v.rows.length
  /-- No row is lost exactly if the keys tell them apart. -/
  complete : v.size = (c.seenRows group scope).length ↔ owner.Separates (c.scopedRows group scope)
  /-- No row is lost if one table of the group is seen, with keys that are seen and not empty. -/
  single (t : Schema) (ht : c.seenTables group scope = [t])
    (hkeys : t.KeysSeen scope (c.data.rowsOf t.name)) :
    (v.rows.map (·.entries)).Perm (c.seenRows group scope)

theorem Regular.view_shows (h : c.Regular) {group : String} {v : View}
    (hv : c.view? group scope = some v) :
    ∃ owner, c.owner? group scope = some owner ∧ c.Shows group scope owner v := by
  obtain ⟨owner, ho, rfl⟩ := Option.map_eq_some_iff.1 hv
  have hkept := rows_arrange owner (c.scopedRows group scope)
  have hseen : (c.scopedRows group scope).map (·.entries) = c.seenRows group scope :=
    h.entries_scopedRows
  refine ⟨owner, ho, hseen, hkept, (View.length_rows _).symm, ?_, fun t ht hkeys => ?_⟩
  · rw [← View.length_rows, hkept.length_eq, ← hseen, List.length_map]
    exact Schema.length_kept_eq_iff
  · obtain ⟨t', ht', rfl⟩ := h.owner_eq ho
    rw [ht, List.mem_singleton] at ht'
    subst ht'
    have hmem : t' ∈ c.schemas.values := by
      have ht' : t' ∈ c.seenTables group scope := ht ▸ List.mem_singleton.2 rfl
      exact List.mem_of_mem_filter (List.mem_of_mem_filter ht')
    have hsep := h.separates hmem hkeys
    rw [← hseen]
    refine (hkept.map _).trans (.of_eq (congrArg _ (Schema.kept_eq_self_iff.2 ?_)))
    rw [h.scopedRows_eq, ht, List.flatMap_singleton]
    exact hsep

end Compiled

namespace Workbook

variable {w : Workbook} {settings : Settings}

/-- The checks have found out what views rely on. -/
theorem Compiles.regular {c : Compiled} (h : w.Compiles settings c) : c.Regular := by
  obtain ⟨s, hp, rfl⟩ := h.passed
  have hkeys := hp.silent Check.keys (by simp [Check.all])
  refine ⟨hp.named, fun t ht r hr => ?_, fun t ht => ?_, fun t ht => hp.distinct ht⟩
  · obtain ⟨sheet, hsheet, hr⟩ := List.mem_flatMap.1 hr
    obtain ⟨source, bold, -, -, -, hcast⟩ := hp.row_of_table ht hsheet hr
    exact hcast.keys_eq (hp.named.columns t ht)
  · exact Check.single_of_keys s.respects hkeys ht

/-- **What views hold.** If a compilation comes to an end, then a view of a group holds, each as
often as it occurs, the rows of all tables of the group that have a column which the scope sees,
reduced to what it sees, but only the last one of those with the same texts of the keys of the owner
of the group. No row is lost if just one table of the group is seen, with its keys and none of them
empty. -/
theorem Compiles.shows {c : Compiled} (h : w.Compiles settings c) {group : String} {scope : Scope}
    {v : View} (hv : c.view? group scope = some v) :
    ∃ owner, c.owner? group scope = some owner ∧ c.Shows group scope owner v :=
  h.regular.view_shows hv

/-- The client sees all three rows of the stock. -/
theorem stock_shows : ∃ c v owner, stock.Compiles {} c ∧ c.view? "Stock" .client = some v ∧
    v.size = 3 ∧ c.Shows "Stock" .client owner v := by
  obtain ⟨c, hc, hsize⟩ := exists_compiles stock {}
    (fun c => (c.view? "Stock" .client).any (·.size == 3)) (by decide +kernel)
  obtain ⟨v, hv, hsize⟩ := (Option.any_eq_true _ _).1 hsize
  obtain ⟨owner, -, hshows⟩ := Compiles.shows hc hv
  exact ⟨c, v, owner, hc, hv, eq_of_beq hsize, hshows⟩

/-- Two tables of one group with the same key, a table whose group key only the server sees, and a
table with two empty keys. -/
def losses : Workbook where
  sheets := [
    { location := ⟨"losses.xlsx", "Weapon", none⟩, table := "Weapon", based := none,
      group := some "Gear",
      columns := [⟨"Id", "*int", .common, false, .ofList [(1, .text "1")]⟩] },
    { location := ⟨"losses.xlsx", "Armor", none⟩, table := "Armor", based := none,
      group := some "Gear",
      columns := [⟨"Id", "*int", .common, false, .ofList [(1, .text "1")]⟩] },
    { location := ⟨"losses.xlsx", "Drop", none⟩, table := "Drop", based := none, group := none,
      columns := [
        ⟨"Area", "(int)", .server, false, .ofList [(1, .text "1"), (2, .text "2")]⟩,
        ⟨"Id", "*int", .common, false, .ofList [(1, .text "7"), (2, .text "7")]⟩] },
    { location := ⟨"losses.xlsx", "Draft", none⟩, table := "Draft", based := none, group := none,
      columns := [
        ⟨"Id", "*string", .common, false, .ofList []⟩,
        ⟨"Body", "string", .common, false, .ofList [(1, .text "a"), (2, .text "b")]⟩] }]

/-- The view of each group holds one row of the two that the client sees. -/
theorem losses_hidden : ∃ c, losses.Compiles {} c ∧
    (c.groups.map fun group =>
      (group, (c.view? group .client).map (·.size), (c.seenRows group .client).length)) =
    [("Gear", some 1, 2), ("Drop", some 1, 2), ("Draft", some 1, 2)] := by
  obtain ⟨c, hc, hsizes⟩ := exists_compiles losses {} (fun c =>
    (c.groups.map fun group =>
      (group, (c.view? group .client).map (·.size), (c.seenRows group .client).length)) ==
    [("Gear", some 1, 2), ("Drop", some 1, 2), ("Draft", some 1, 2)]) (by decide +kernel)
  exact ⟨c, hc, eq_of_beq hsizes⟩

end Workbook

end TypedSheets
