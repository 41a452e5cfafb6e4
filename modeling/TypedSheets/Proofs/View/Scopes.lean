import TypedSheets.Proofs.Collections
import TypedSheets.Proofs.Compilation.Views
import TypedSheets.Proofs.Relation.Chains

/-!
# What a scope cannot see

A view of a scope, and the constants of a scope, depend on nothing that the scope does not see:
compilations that differ only in values of other columns and constants look the same to it. The
values of a row enter a view as cells, as primary keys and as group keys; all three are read from
the row after it has been projected, with keys that are columns the scope sees.

## Main definitions

* `CastRow.AlikeOn`, `CastSheet.AlikeOn`, `CastConst.AlikeFor` — rows, sheets and constants that
  differ only in values that are not seen.
* `Compiled.AlikeFor` — compilations that a scope cannot tell apart.

## Main results

* `Compiled.AlikeFor.scopedRows_eq` — the same rows are arranged.
* `Compiled.AlikeFor.confined` — the views and constants are the same.
-/

namespace TypedSheets

/-! ### Alike but for what is not seen -/

/-- Rows with the same number and columns that differ only in columns that are not seen. -/
structure CastRow.AlikeOn (seen : String → Bool) (a b : CastRow) : Prop where
  /-- The number of the row is the same. -/
  row : a.row = b.row
  /-- The columns are the same. -/
  columns : a.values.keys = b.values.keys
  /-- The values that are seen are the same. -/
  values (column : String) (h : seen column = true) : a.values.find? column = b.values.find? column

/-- Sheets of the same table and place whose rows differ only in columns that are not seen. -/
structure CastSheet.AlikeOn (seen : String → Bool) (a b : CastSheet) : Prop where
  /-- The table is the same. -/
  table : a.table = b.table
  /-- The place is the same. -/
  location : a.location = b.location
  /-- The rows differ only in columns that are not seen. -/
  rows : List.Forall₂ (CastRow.AlikeOn seen) a.rows b.rows

/-- Constants that are the same, but for the value of one that a scope does not see. -/
structure CastConst.AlikeFor (scope : Scope) (a b : CastConst) : Prop where
  /-- The table is the same. -/
  table : a.table = b.table
  /-- The name is the same. -/
  name : a.name = b.name
  /-- The type is the same. -/
  type : a.type = b.type
  /-- The scope is the same. -/
  scope_eq : a.scope = b.scope
  /-- The place is the same. -/
  location : a.location = b.location
  /-- The value of a constant that is seen is the same. -/
  value (h : a.scope.contains scope = true) : a.value = b.value

/-- A constant that is seen is the same. -/
theorem CastConst.AlikeFor.eq {scope : Scope} {a b : CastConst} (h : a.AlikeFor scope b)
    (hseen : a.scope.contains scope = true) : a = b := by
  obtain ⟨table, name, type, scope', value, location⟩ := a
  cases h.table
  cases h.name
  cases h.type
  cases h.scope_eq
  cases h.location
  cases h.value hseen
  rfl

/-- The constants that are seen are the same. -/
theorem CastConst.filter_eq_of_alike {scope : Scope} {l m : List CastConst}
    (h : List.Forall₂ (CastConst.AlikeFor scope) l m) :
    l.filter (·.scope.contains scope) = m.filter (·.scope.contains scope) := by
  induction h with
  | nil => rfl
  | cons hab _ ih =>
    rw [List.filter_cons, List.filter_cons, ← hab.scope_eq, ih]
    split
    · rename_i hseen
      rw [hab.eq hseen]
    · rfl

namespace Compiled

/-- Whether a scope sees a column of the table of a name. -/
def sees (c : Compiled) (scope : Scope) (table column : String) : Bool :=
  (c.schemas.find? table).any fun t => t.sees scope column

/-- Compilations with the same tables that differ only in values of columns and constants that a
scope does not see. -/
structure AlikeFor (scope : Scope) (a b : Compiled) : Prop where
  /-- The tables are the same. -/
  schemas : a.schemas = b.schemas
  /-- The sheets of each table differ only in columns that are not seen. -/
  sheets : List.Forall₂ (fun s t => s.1 = t.1 ∧
    List.Forall₂ (CastSheet.AlikeOn (a.sees scope s.1)) s.2 t.2)
    a.data.tables.entries b.data.tables.entries
  /-- The constants differ only in values that are not seen. -/
  consts : List.Forall₂ (CastConst.AlikeFor scope) a.consts b.consts

/-! ### The columns of a view -/

variable {a b c : Compiled} {scope : Scope} {group table : String}

/-- A table as a scope sees it has no column that the scope does not see. -/
theorem sees_of_visible? {t : Schema} (h : c.visible? scope table = some t) {column : String}
    (hc : column ∈ t.columns.keys) : c.sees scope table column = true := by
  unfold visible? Schemas.scoped? at h
  obtain ⟨u, hu, h⟩ := Option.bind_eq_some_iff.1 h
  have ht : t = u.reduced scope := by
    dsimp only at h
    split at h <;> cases h
    rfl
  subst ht
  rw [Schema.keys_reduced] at hc
  rw [sees, hu, Option.any_some]
  exact (List.mem_filter.1 hc).2

/-- Rows that differ only in columns that are not seen have the same projection to columns that
are. -/
theorem project_congr {seen : String → Bool} {r r' : CastRow} (h : r.AlikeOn seen r')
    {columns : List String} (hc : ∀ column ∈ columns, seen column = true) :
    project columns r = project columns r' := by
  unfold project
  refine congrArg Keyed.ofList (List.filterMap_congr fun column hcolumn => ?_)
  rw [h.values column (hc column hcolumn)]

namespace AlikeFor

/-! ### Rows and owners -/

variable (h : AlikeFor scope a b)

include h

theorem visible?_eq (table : String) : a.visible? scope table = b.visible? scope table := by
  unfold visible?
  rw [h.schemas]

/-- The keys that arrange a group are chosen by the tables alone. -/
theorem owner?_eq (group : String) : a.owner? group scope = b.owner? group scope := by
  unfold owner?
  rw [h.visible?_eq, h.schemas]
  congr 2
  funext t
  exact h.visible?_eq t.name

/-- The rows of a table differ only in columns that are not seen. -/
theorem rowsOf (table : String) : List.Forall₂ (CastRow.AlikeOn (a.sees scope table))
    (a.data.rowsOf table) (b.data.rowsOf table) := by
  have hfound : Option.Rel (List.Forall₂ (CastSheet.AlikeOn (a.sees scope table)))
      (a.data.tables.find? table) (b.data.tables.find? table) :=
    Keyed.rel_find? (R := fun name => List.Forall₂ (CastSheet.AlikeOn (a.sees scope name)))
      h.sheets table
  have hsheets : List.Forall₂ (CastSheet.AlikeOn (a.sees scope table))
      (a.data.sheets table) (b.data.sheets table) := by
    unfold TableData.sheets
    generalize a.data.tables.find? table = x, b.data.tables.find? table = y at hfound ⊢
    cases hfound with
    | none => exact .nil
    | some hsheets => exact hsheets
  exact List.rel_flatMap hsheets fun _ _ hst => hst.rows

/-- The same rows are arranged: what is read of a row is read behind the projection. -/
theorem scopedRows_eq (group : String) : a.scopedRows group scope = b.scopedRows group scope := by
  unfold scopedRows
  rw [h.schemas]
  refine List.flatMap_congr fun t _ => ?_
  rw [← h.visible?_eq]
  cases hvisible : a.visible? scope t.name with
  | none => rfl
  | some visible =>
    refine List.Forall₂.map_eq ((h.rowsOf t.name).imp fun r r' hr => ?_)
    exact project_congr hr fun column hcolumn => sees_of_visible? hvisible hcolumn

theorem view?_eq (group : String) : a.view? group scope = b.view? group scope := by
  unfold view?
  rw [h.owner?_eq, h.scopedRows_eq]

/-! ### Views and constants -/

/-- Compilations that differ only in values that a scope does not see have the same views and
constants in it. -/
theorem confined :
    a.views scope = b.views scope ∧ a.scopedConsts scope = b.scopedConsts scope := by
  constructor
  · unfold views groups
    rw [h.schemas]
    refine List.filterMap_congr fun group _ => ?_
    rw [h.view?_eq]
  · unfold scopedConsts
    rw [CastConst.filter_eq_of_alike h.consts]

end AlikeFor

/-! ### Prices for the server -/

/-- The price of an item, for the server only. -/
def itemPrice : SchemaColumn :=
  { SchemaColumn.ofExpr "Price" (.primitive {} .int32) rfl with scope := .server }

/-- An item and a rate, with values that only the server sees. -/
def shop (price rate : Int) : Compiled where
  schemas := .ofList [("Item", Schemas.tableOf "Item" [Schemas.nodeId, itemPrice])]
  enums := default
  prototypes := default
  consts := [⟨"Rates", "Tax", "int", .server, .int rate, ⟨"shop.xlsx", "Rates", none⟩⟩]
  data := {
    tables := .ofList [("Item", [{
      table := "Item", location := ⟨"shop.xlsx", "Item", none⟩,
      rows := [⟨1, .ofList [("Id", .int 7), ("Price", .int price)]⟩] }])] }

/-- Prices and rates do not show in what the client sees. -/
theorem shop_confined : (shop 10 1).AlikeFor .client (shop 25 2) ∧
    (shop 10 1).views .client = (shop 25 2).views .client ∧
    (shop 10 1).scopedConsts .client = (shop 25 2).scopedConsts .client := by
  have hrow : CastRow.AlikeOn ((shop 10 1).sees .client "Item")
      ⟨1, .ofList [("Id", .int 7), ("Price", .int 10)]⟩
      ⟨1, .ofList [("Id", .int 7), ("Price", .int 25)]⟩ := by
    refine ⟨rfl, rfl, fun column hseen => ?_⟩
    by_cases hprice : column = "Price"
    · subst hprice
      exact absurd hseen (by decide +kernel)
    · have hid (price : Int) : (Keyed.ofList [("Id", Value.int 7), ("Price", .int price)]).find?
          column = if "Id" = column then some (.int 7) else none := by
        simp [Keyed.ofList, Keyed.insert, Keyed.empty, Keyed.put, Keyed.find?, Keyed.lookup,
          Ne.symm hprice]
      rw [hid, hid]
  have h : (shop 10 1).AlikeFor .client (shop 25 2) :=
    ⟨rfl, .cons ⟨rfl, .cons ⟨rfl, rfl, .cons hrow .nil⟩ .nil⟩ .nil,
      .cons ⟨rfl, rfl, rfl, rfl, rfl, fun hseen => by cases hseen⟩ .nil⟩
  exact ⟨h, h.confined⟩

end Compiled

end TypedSheets
