import TypedSheets.Proofs.Check.Keys
import TypedSheets.Proofs.Compilation.CastData

/-!
# Keys of rows

In the data of a compilation that comes to an end, every row of a table has values for the keys of
the table, and no two rows with a primary key that is not empty have the same keys. A key may be
empty though it is not declared nullable: strings may always be, a relation may lead to a nullable
column, and a constant may be empty. Rows without a primary key are not told apart.

## Main definitions

* `Definitions.Blank` — cells that stand for the empty value of an annotation.
* `Schema.SameKey` — two rows have the same keys.
* `Session.Identified` — keys identify the rows of a table.

## Main results

* `Definitions.cast_blank` — only blank cells are cast to the empty value.
* `Workbook.Compiles.identified` — keys identify the rows of all tables.
* `Workbook.blanks_unidentified` — keys that are empty, two of them in one table.
-/

namespace TypedSheets

open Recall

/-! ### Blank cells -/

namespace Definitions

variable (d : Definitions)

/-- The cells that stand for the empty value of an annotation: empty ones, where the stored type has
the empty value, and references to constants that are blank under their own types. -/
inductive Blank : (type : String) → Cell → Prop
  | cell {type cell expr} (hc : cell.isNull = true) (h : d.StoredAs type expr)
      (hn : expr.admitsNull = true) : Blank type cell
  | const {type cell link k} (hl : cell.constRef? = some link) (hk : d.consts.find? link = some k)
      (h : Blank k.type k.value) : Blank type cell

variable {d} {R : String → String → List String → Prop}

theorem castFrom_blank (depth : Nat) (trail : Trail) (type : String) (cell : Cell) :
    Yields (d.Sound R) (d.castFrom depth trail type cell)
      fun v => v = .null → d.Blank type cell := by
  induction depth generalizing trail type cell with
  | zero => exact yields_throw
  | succ depth ih =>
    cases hlink : cell.constRef? with
    | none =>
      refine (castFrom_yields (depth + 1) trail type cell).mono fun v hv hnull => ?_
      obtain ⟨hc, expr, h, hn⟩ := (hv hlink).null hnull
      exact .cell hc h hn
    | some link =>
      unfold castFrom
      simp only [hlink]
      split
      · exact yields_fail
      · rename_i k hk
        split
        · exact yields_fail
        · exact (ih _ _ _).mono fun v hv hnull => .const hlink hk (hv hnull)

/-- Only blank cells are cast to the empty value. -/
theorem cast_blank (type : String) (cell : Cell) :
    Yields (d.Sound R) (d.cast type cell) fun v => v = .null → d.Blank type cell :=
  castFrom_blank _ _ type cell

end Definitions

/-! ### Keys -/

namespace Schema

variable (t : Schema)

/-- A column is the primary key of a table, or its group key. -/
def IsKey (k : SchemaColumn) : Prop :=
  t.primaryKey? = some k ∨ t.groupKey? = some k

/-- Two rows have the same keys: primary keys that are not empty and have one text, and group keys
that have one text, if the table has a group key. -/
structure SameKey (a b : CastRow) : Prop where
  /-- The primary key. -/
  primary : ∃ k u v, t.primaryKey? = some k ∧ a.values.find? k.name = some u ∧
    b.values.find? k.name = some v ∧ u ≠ .null ∧ v ≠ .null ∧ u.text = v.text
  /-- The group key. -/
  group (k : SchemaColumn) (hk : t.groupKey? = some k) : ∃ u v,
    a.values.find? k.name = some u ∧ b.values.find? k.name = some v ∧ u.text = v.text

variable {t}

theorem IsKey.mem {k : SchemaColumn} (h : t.IsKey k) : k ∈ t.columns.values :=
  h.elim List.mem_of_find?_eq_some List.mem_of_find?_eq_some

theorem IsKey.isKey {k : SchemaColumn} (h : t.IsKey k) : k.expr.isKey = true := by
  unfold TypeExpr.isKey
  rcases h with h | h
  · have hk : k.isPrimaryKey = true := List.find?_some h
    rw [eq_of_beq hk]
    rfl
  · have hk : k.isGroupKey = true := List.find?_some h
    rw [eq_of_beq hk]
    rfl

/-- Rows with the same keys have one text for their keys. -/
theorem SameKey.keyText? {a b : CastRow} (h : t.SameKey a b) {k : SchemaColumn}
    (hk : t.primaryKey? = some k) : ∃ text, Check.keyText? k t.groupKey? a = some text ∧
      Check.keyText? k t.groupKey? b = some text := by
  obtain ⟨k', u, v, hk', hu, hv, hun, hvn, htext⟩ := h.primary
  cases hk.symm.trans hk'
  have hnull (x : Value) (hx : x ≠ .null) : x.isNull = false := by
    cases x <;> first | rfl | exact absurd rfl hx
  unfold Check.keyText?
  simp only [hu, hv, Option.filter_some, hnull u hun, hnull v hvn, Bool.not_false, if_true,
    Option.map_some]
  cases hg : t.groupKey? with
  | none => exact ⟨u.text, rfl, by rw [htext]; rfl⟩
  | some g =>
    obtain ⟨p, q, hp, hq, hparent⟩ := h.group g hg
    refine ⟨p.text ++ "/" ++ u.text, ?_, ?_⟩
    · simp [hp]
    · simp [hq, htext, hparent]

end Schema

namespace Session

variable (s : Session)

/-- The cell that goes into a column of a row of a place is blank. -/
def LeftBlank (w : Workbook) (t : Schema) (k : SchemaColumn) (place : Location) (r : CastRow) :
    Prop :=
  ∃ sheet ∈ w.sheets, sheet.location = place ∧ ∃ bold cell, s.target? sheet bold = some t ∧
    s.sourceCell? sheet bold r.row k.name = some cell ∧ s.defs.Blank k.type cell

/-- The keys of a table identify its rows. -/
structure Identified (w : Workbook) (data : TableData) (t : Schema) : Prop where
  /-- No key is declared nullable. -/
  declared (k : SchemaColumn) (hk : t.IsKey k) : k.expr.nullable = false
  /-- Every row has a value for every key, which is empty only if its cell is blank. -/
  filled (k : SchemaColumn) (hk : t.IsKey k) (sheet : CastSheet) (hs : sheet ∈ data.sheets t.name)
    (r : CastRow) (hr : r ∈ sheet.rows) : ∃ v, r.values.find? k.name = some v ∧
      (v = .null → s.LeftBlank w t k sheet.location r)
  /-- No two rows have the same keys. -/
  distinct : (data.rowsOf t.name).Pairwise fun a b => ¬ t.SameKey a b

end Session

namespace Workbook

variable {w : Workbook} {settings : Settings} {s : Session}

/-- The keys of the rows of a table are filled unless their cells are blank. -/
theorem Passed.filled (hp : w.Passed settings s) {t : Schema} (ht : t ∈ s.schemas.values)
    {k : SchemaColumn} (hk : t.IsKey k) {sheet : CastSheet} (hs : sheet ∈ s.data.sheets t.name)
    {r : CastRow} (hr : r ∈ sheet.rows) : ∃ v, r.values.find? k.name = some v ∧
      (v = .null → s.LeftBlank w t k sheet.location r) := by
  obtain ⟨source, bold, hsource, hplace, htarget, hcast⟩ := hp.row_of_table ht hs hr
  obtain ⟨v, hv, -, cell, hcell, hgives⟩ :=
    hcast.value_of_column (hp.named.columns t ht) hk.mem
  refine ⟨v, hv, fun hnull => ?_⟩
  have hblank := hgives.ensured (s.defs.cast_blank k.type cell) v rfl hnull
  exact ⟨source, hsource, hplace, bold, cell, htarget, hcell, hblank⟩

/-- No two rows of a table have the same keys. -/
theorem Passed.distinct (hp : w.Passed settings s) {t : Schema} (ht : t ∈ s.schemas.values) :
    (s.data.rowsOf t.name).Pairwise fun a b => ¬ t.SameKey a b := by
  cases hk : t.primaryKey? with
  | none =>
    refine List.pairwise_of_forall fun a b hsame => ?_
    obtain ⟨k, u, v, hk', -⟩ := hsame.primary
    rw [hk] at hk'
    cases hk'
  | some k =>
    have hnodup := Check.nodup_keyTexts_of_keys s.respects
      (hp.silent Check.keys (by simp [Check.all])) ht hk
    refine (List.pairwise_filterMap.1 hnodup).imp ?_
    intro a b hne hsame
    obtain ⟨text, ha, hb⟩ := hsame.keyText? hk
    exact hne text ha text hb rfl

/-- **Keys identify rows.** If a compilation comes to an end, then in every table every row has a
value for every key, which is empty only if the cell it comes from is blank, and no two rows whose
primary keys are not empty have the same keys. -/
theorem Compiles.identified {c : Compiled} (h : w.Compiles settings c) :
    ∃ s, w.resolved settings = .ok s ∧ c.schemas = s.schemas ∧
      ∀ t ∈ c.schemas.values, s.Identified w c.data t := by
  obtain ⟨s, hp, rfl⟩ := h.passed
  obtain ⟨s₀, data, hs, rfl⟩ := hp.resolved
  refine ⟨s₀, hs, rfl, fun t ht => ⟨fun k hk => ?_, fun k hk sheet hsheet r hr => ?_, ?_⟩⟩
  · exact Check.not_nullable_of_keys ({ s₀ with data } : Session).respects
      (hp.silent Check.keys (by simp [Check.all])) ht hk.mem hk.isKey
  · exact hp.filled ht hk hsheet hr
  · exact hp.distinct ht

/-- A table of stock whose rows have a group key and a primary key, in two sheets. -/
def stock : Workbook where
  sheets := [
    { location := ⟨"stock.xlsx", "North", none⟩, table := "Stock", based := none, group := none,
      columns := [
        ⟨"Shop", "(string)", .common, false, .ofList [(1, .text "a"), (2, .text "b")]⟩,
        ⟨"Item", "*int", .common, false, .ofList [(1, .text "7"), (2, .text "7")]⟩] },
    { location := ⟨"stock.xlsx", "South", none⟩, table := "Stock", based := none, group := none,
      columns := [
        ⟨"Shop", "(string)", .common, false, .ofList [(1, .text "a")]⟩,
        ⟨"Item", "*int", .common, false, .ofList [(1, .text "8")]⟩] }]

/-- The stock compiles to three rows that its keys identify. -/
theorem stock_identified : ∃ c s, stock.Compiles {} c ∧ c.data.rowCount = 3 ∧
    stock.resolved {} = .ok s ∧ ∀ t ∈ c.schemas.values, s.Identified stock c.data t := by
  obtain ⟨c, hc, hrows⟩ := exists_compiles stock {} (·.data.rowCount == 3) (by decide +kernel)
  obtain ⟨s, hs, -, hall⟩ := Compiles.identified hc
  exact ⟨c, s, hc, eq_of_beq hrows, hs, hall⟩

/-- Tables with empty keys: a string, a group key that is a string, a relation to a nullable column,
and a reference to a constant that is empty. -/
def blanks : Workbook where
  sheets := [
    { location := ⟨"blanks.xlsx", "Draft", none⟩, table := "Draft", based := none, group := none,
      columns := [
        ⟨"Id", "*string", .common, false, .ofList []⟩,
        ⟨"Body", "string", .common, false, .ofList [(1, .text "a"), (2, .text "b")]⟩] },
    { location := ⟨"blanks.xlsx", "Note", none⟩, table := "Note", based := none, group := none,
      columns := [
        ⟨"Topic", "(string)", .common, false, .ofList []⟩,
        ⟨"Id", "*int", .common, false, .ofList [(1, .text "1")]⟩] },
    { location := ⟨"blanks.xlsx", "Code", none⟩, table := "Code", based := none, group := none,
      columns := [
        ⟨"Id", "*int", .common, false, .ofList [(1, .text "1")]⟩,
        ⟨"Number", "int?", .common, false, .ofList []⟩] },
    { location := ⟨"blanks.xlsx", "Price", none⟩, table := "Price", based := none, group := none,
      columns := [
        ⟨"Code", "*$Code.Number", .common, false, .ofList []⟩,
        ⟨"Amount", "int", .common, false, .ofList [(1, .text "5")]⟩] },
    { location := ⟨"blanks.xlsx", "Gift", none⟩, table := "Gift", based := none, group := none,
      columns := [⟨"Id", "*int", .common, false, .ofList [(1, .text "Const:None:Id")]⟩] }]
  consts := [{ location := ⟨"blanks.xlsx", "Const", none⟩, table := "None", name := "Id",
               type := "int?", scope := .common, value := .null }]

end Workbook

/-- The keys of all tables, with the rows where they are empty. -/
def Compiled.emptyKeys (c : Compiled) : List (String × String × List Nat) :=
  c.schemas.values.flatMap fun t => (t.columns.values.filter (·.expr.isKey)).map fun k =>
    (t.name, k.type, ((c.data.rowsOf t.name).filter fun r =>
      (r.values.find? k.name).any Value.isNull).map (·.row))

/-- A compilation comes to an end with keys that are empty, two of them in one table. -/
theorem Workbook.blanks_unidentified : ∃ c, blanks.Compiles {} c ∧ c.emptyKeys =
    [("Draft", "*string", [1, 2]), ("Note", "(string)", [1]), ("Note", "*int", []),
      ("Code", "*int", []), ("Price", "*$Code.Number", [1]), ("Gift", "*int", [1])] := by
  obtain ⟨c, hc, hkeys⟩ := exists_compiles blanks {} (·.emptyKeys ==
    [("Draft", "*string", [1, 2]), ("Note", "(string)", [1]), ("Note", "*int", []),
      ("Code", "*int", []), ("Price", "*$Code.Number", [1]), ("Gift", "*int", [1])])
    (by decide +kernel)
  exact ⟨c, hc, eq_of_beq hkeys⟩

end TypedSheets
