import TypedSheets.Proofs.Keyed
import TypedSheets.View

/-!
# Arranged rows

Rows that are arranged by the keys of a table are kept, except that a later row displaces those with
the same texts of keys. Without a primary key all rows are kept.

## Main definitions

* `Arranged.rows`, `View.rows` — the rows of a view.
* `Schema.keysIn` — the texts of the keys of a table in a row.
* `Schema.kept` — the rows that arranging keeps.
* `Schema.Separates` — the keys of a table tell rows apart.

## Main results

* `Compiled.rows_arrange` — what arranging keeps.
* `Schema.kept_eq_self_iff`, `Schema.length_kept_eq_iff` — all rows are kept exactly if the keys
  tell them apart.
-/

namespace TypedSheets

/-! ### Rows of a view -/

/-- Arranged rows, without their keys. -/
def Arranged.rows : Arranged → List ScopedRow
  | keyed rows => rows.values
  | list rows => rows

/-- The rows of a view, without their keys. -/
def View.rows : View → List ScopedRow
  | grouped groups => groups.values.flatMap Arranged.rows
  | flat rows => rows.rows

theorem Arranged.length_rows (a : Arranged) : a.rows.length = a.size := by
  cases a with
  | keyed rows => exact rows.length_values
  | list rows => rfl

/-- The size of a view is the number of its rows. -/
theorem View.length_rows (v : View) : v.rows.length = v.size := by
  cases v with
  | flat rows => exact rows.length_rows
  | grouped groups =>
    rw [View.rows, View.size]
    induction groups.values with
    | nil => rfl
    | cons a l ih => rw [List.flatMap_cons, List.length_append, List.foldr_cons, ih, a.length_rows]

/-! ### Arranging -/

namespace Schema

variable (owner : Schema)

/-- The texts of the keys of a table in a row: of the group key, if there is one, and of the primary
key. -/
def keysIn (primary : SchemaColumn) (row : ScopedRow) : Option String × String :=
  (owner.groupKey?.map fun g => keyTextIn g.name row, keyTextIn primary.name row)

/-- The rows that are kept: all without a primary key, and else the last one with its keys. -/
def kept (rows : List ScopedRow) : List ScopedRow :=
  match owner.primaryKey? with
  | none => rows
  | some primary => Keyed.latest (owner.keysIn primary) rows

/-- The keys tell rows apart, or there is no primary key. -/
def Separates (rows : List ScopedRow) : Prop :=
  ∀ primary, owner.primaryKey? = some primary → (rows.map (owner.keysIn primary)).Nodup

variable {owner} {rows : List ScopedRow}

/-- All rows are kept exactly if the keys tell them apart. -/
theorem kept_eq_self_iff : owner.kept rows = rows ↔ owner.Separates rows := by
  unfold kept Separates
  cases owner.primaryKey? with
  | none =>
    refine ⟨fun _ primary h => ?_, fun _ => rfl⟩
    cases h
  | some primary =>
    rw [Keyed.latest_eq_self_iff]
    refine ⟨fun h p hp => ?_, fun h => h primary rfl⟩
    cases hp
    exact h

/-- The number of rows that are kept tells whether all are. -/
theorem length_kept_eq_iff : (owner.kept rows).length = rows.length ↔ owner.Separates rows := by
  rw [← kept_eq_self_iff]
  refine ⟨fun h => ?_, congrArg List.length⟩
  unfold kept at h ⊢
  cases hp : owner.primaryKey? with
  | none => rfl
  | some primary =>
    rw [hp] at h
    exact (Keyed.latest_sublist _ rows).eq_of_length h

end Schema

namespace Compiled

theorem rows_ofRows_some (primary : SchemaColumn) (rows : List ScopedRow) :
    (Arranged.ofRows (some primary) rows).rows.Perm
      (Keyed.latest (keyTextIn primary.name) rows) :=
  Keyed.values_ofList_perm _ rows

/-- Arranging keeps what the keys of the owner keep, in some order. -/
theorem rows_arrange (owner : Schema) (rows : List ScopedRow) :
    (arrange owner rows).rows.Perm (owner.kept rows) := by
  unfold arrange Schema.kept Schema.keysIn
  cases owner.groupKey? with
  | none =>
    cases owner.primaryKey? with
    | none => exact .refl _
    | some primary =>
      refine (rows_ofRows_some primary rows).trans (.of_eq ?_)
      exact Keyed.latest_congr _ (fun _ _ => by simp) rows
  | some key =>
    have hvalues : (View.grouped ((Keyed.groupBy (keyTextIn key.name) rows).mapValues
        (Arranged.ofRows owner.primaryKey?))).rows =
        (Keyed.groupBy (keyTextIn key.name) rows).values.flatMap fun group =>
          (Arranged.ofRows owner.primaryKey? group).rows := by
      simp [View.rows, Keyed.mapValues, Keyed.values, List.flatMap_map]
    refine (List.Perm.of_eq hvalues).trans ?_
    cases owner.primaryKey? with
    | none => exact Keyed.flatMap_groupBy_perm _ (fun _ h => h) fun _ => .refl _
    | some primary =>
      refine Keyed.flatMap_groupBy_perm _ (Keyed.latest_sublist _ rows).subset fun text => ?_
      refine (rows_ofRows_some primary _).trans (.of_eq ?_)
      rw [Keyed.latest_filter]
      congr 1
      exact Keyed.latest_congr _ (fun _ _ => by simp) rows

end Compiled

end TypedSheets
