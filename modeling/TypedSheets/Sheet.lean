import TypedSheets.Call.Prototype
import TypedSheets.Cell
import TypedSheets.Enum.Registry
import TypedSheets.Schema

/-!
# Sheets

What a spreadsheet reader hands over: sheets with typed columns and sparse cells, enum sheets,
constants and prototypes. Nothing in it is checked.

A sheet has two tiers. Its bold columns describe groups of rows, its normal columns the rows
themselves; each tier has rows of its own.

## Main definitions

* `CellMap` — the cells of a column by row, in row order.
* `SheetColumn`, `Sheet` — a sheet and its columns.
* `Sheet.rowsOf` — the rows of a tier.
* `Constant` — a named cell.
* `Workbook` — everything that is compiled together.
-/

namespace TypedSheets

/-- The cells of a column by row, in ascending order of rows. -/
structure CellMap where
  /-- Rows with their cells. -/
  entries : List (Nat × Cell)
  /-- The rows ascend. -/
  ascending : entries.Pairwise fun a b => a.1 < b.1
deriving DecidableEq

namespace CellMap

/-- No cells. -/
def empty : CellMap := ⟨[], List.Pairwise.nil⟩

instance : Inhabited CellMap := ⟨empty⟩

/-- The entries after setting the cell of a row. -/
def put (row : Nat) (cell : Cell) : List (Nat × Cell) → List (Nat × Cell)
  | [] => [(row, cell)]
  | (r, c) :: rest =>
    if row < r then (row, cell) :: (r, c) :: rest
    else if row = r then (row, cell) :: rest
    else (r, c) :: put row cell rest

theorem fst_of_mem_put {row : Nat} {cell : Cell} {l : List (Nat × Cell)} {e : Nat × Cell}
    (h : e ∈ put row cell l) : e.1 = row ∨ e ∈ l := by
  induction l with
  | nil => simp only [put, List.mem_singleton] at h; exact Or.inl (by rw [h])
  | cons f l ih =>
    obtain ⟨r, c⟩ := f
    unfold put at h
    split at h
    · rcases List.mem_cons.1 h with rfl | h
      · exact Or.inl rfl
      · exact Or.inr h
    · split at h
      · rcases List.mem_cons.1 h with rfl | h
        · exact Or.inl rfl
        · exact Or.inr (List.mem_cons_of_mem _ h)
      · rcases List.mem_cons.1 h with rfl | h
        · exact Or.inr (List.mem_cons_self ..)
        · exact (ih h).imp id (List.mem_cons_of_mem _)

theorem pairwise_put {row : Nat} {cell : Cell} {l : List (Nat × Cell)}
    (h : l.Pairwise fun a b => a.1 < b.1) :
    (put row cell l).Pairwise fun a b => a.1 < b.1 := by
  induction l with
  | nil => exact List.pairwise_singleton _ _
  | cons f l ih =>
    obtain ⟨r, c⟩ := f
    have hl := (List.pairwise_cons.1 h).2
    have hf := (List.pairwise_cons.1 h).1
    unfold put
    split
    · rename_i hlt
      refine List.pairwise_cons.2 ⟨fun e he => ?_, h⟩
      rcases List.mem_cons.1 he with rfl | he
      · exact hlt
      · exact Nat.lt_trans hlt (hf e he)
    · split
      · rename_i heq
        subst heq
        exact List.pairwise_cons.2 ⟨hf, hl⟩
      · refine List.pairwise_cons.2 ⟨fun e he => ?_, ih hl⟩
        rcases fst_of_mem_put he with he | he
        · rw [he]; show r < row; omega
        · exact hf e he

/-- Sets the cell of a row. -/
def insert (m : CellMap) (row : Nat) (cell : Cell) : CellMap :=
  ⟨put row cell m.entries, pairwise_put m.ascending⟩

/-- The cells set one after the other; the last cell of a row counts. -/
def ofList (cells : List (Nat × Cell)) : CellMap :=
  cells.foldl (fun m e => m.insert e.1 e.2) empty

/-- The rows in order. -/
def rows (m : CellMap) : List Nat := m.entries.map Prod.fst

/-- The cell of a row. -/
def get? (m : CellMap) (row : Nat) : Option Cell :=
  (m.entries.find? fun e => e.1 == row).map Prod.snd

/-- The cell of the last row before a row. -/
def lastBefore? (m : CellMap) (row : Nat) : Option Cell :=
  (m.entries.takeWhile fun e => e.1 < row).getLast?.map Prod.snd

end CellMap

/-- A column of a sheet with its cells. -/
structure SheetColumn where
  /-- The name. -/
  name : String
  /-- The type as it is written. -/
  type : String
  /-- The outputs the column belongs to. -/
  scope : Scope
  /-- Whether the column belongs to the bold tier. -/
  bold : Bool
  /-- The cells. -/
  cells : CellMap
deriving DecidableEq, Inhabited

/-- Whether two columns agree in all but their cells. -/
def SheetColumn.sameHeader (a b : SheetColumn) : Bool :=
  a.name == b.name && a.type == b.type && a.scope == b.scope && a.bold == b.bold

/-- A sheet of a table. -/
structure Sheet where
  /-- The sheet. -/
  location : Location
  /-- The table it belongs to. -/
  table : String
  /-- The table that its table inherits from. -/
  based : Option String
  /-- The output group, if it is not named like the table. -/
  group : Option String
  /-- The columns in order. -/
  columns : List SheetColumn
deriving DecidableEq, Inhabited

/-- A row put into its place in an ascending list of rows, unless it is there. -/
def insertRow (row : Nat) : List Nat → List Nat
  | [] => [row]
  | r :: rest =>
    if row < r then row :: r :: rest
    else if row = r then r :: rest
    else r :: insertRow row rest

namespace Sheet

/-- Whether the sheet has a bold tier. -/
def hasBold (s : Sheet) : Bool :=
  s.columns.any (·.bold)

/-- The columns of a tier. -/
def tier (s : Sheet) (bold : Bool) : List SheetColumn :=
  s.columns.filter (·.bold == bold)

/-- The rows with a cell in some column of a tier, ascending. -/
def rowsOf (s : Sheet) (bold : Bool) : List Nat :=
  ((s.tier bold).flatMap (·.cells.rows)).foldl (fun rows row => insertRow row rows) []

/-- The first column of a tier with a name. -/
def column? (s : Sheet) (bold : Bool) (name : String) : Option SheetColumn :=
  s.columns.find? fun c => c.bold == bold && c.name == name

end Sheet

/-- A named cell with a type of its own. -/
structure Constant where
  /-- The sheet that declares it. -/
  location : Location
  /-- The table of constants it belongs to. -/
  table : String
  /-- The name. -/
  name : String
  /-- The type as it is written. -/
  type : String
  /-- The outputs it belongs to. -/
  scope : Scope
  /-- The cell. -/
  value : Cell
deriving DecidableEq, Inhabited

/-- Everything that is compiled together. -/
structure Workbook where
  /-- The sheets. -/
  sheets : List Sheet := []
  /-- The sheets that declare enums. -/
  enums : List EnumSheet := []
  /-- The constants. -/
  consts : List Constant := []
  /-- The prototypes. -/
  prototypes : Prototypes := .empty
deriving Inhabited

namespace Workbook

/-- The sheets of each table, tables in first-seen order. -/
def tables (w : Workbook) : Keyed String (List Sheet) :=
  Keyed.groupBy (·.table) w.sheets

/-- The first sheet of a table. -/
def sheetOf? (w : Workbook) (table : String) : Option Sheet :=
  w.sheets.find? (·.table == table)

end Workbook

end TypedSheets
