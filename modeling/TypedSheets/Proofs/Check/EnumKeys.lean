import TypedSheets.Proofs.Casting.Constants
import TypedSheets.Proofs.Casting.Members
import TypedSheets.Proofs.Check.Duplicates
import TypedSheets.Proofs.Compilation.Keys

/-!
# Keys of enum types

A key of an enum type holds one member, and no combination. The check of keys sees to it by looking
at the cells in the key columns, as they are written. The value of a key need not stem from such a
cell: a reference to a constant stands for the cell of the constant, a generated column takes its
cell from another column, and where both tiers of a sheet go into one table the check looks at the
normal tier only. These three apart, no key of an enum type stems from a cell that combines members.

## Main definitions

* `Session.Generated` — the cell of a generated column.
* `Session.KeyStem` — the cell that a key stems from.
* `Session.Unread` — the cells that the check of keys does not look at.

## Main results

* `Check.not_combines` — cells that the check of keys looks at combine no members.
* `Workbook.Runs.enum_keys` — the cells that keys of enum types stem from.
-/

namespace TypedSheets

open Recall

/-! ### What the check looks at -/

namespace Check

variable {s : Session} {w : Workbook} {t : Schema}

theorem fresh_hasEnumRoot {type name : String} (h : s.defs.enumRoot? type = some name) :
    (hasEnumRoot s type).run.fresh = .ok true := by
  obtain ⟨f, root, hroot, hparse⟩ := Definitions.enumRoot?_eq_some_iff.1 h
  have hfresh : (s.schemas.rootType type).run.fresh = .ok root := by
    refine (Definitions.fresh_rootType (d := s.defs) type).trans ?_
    rw [hroot]
    rfl
  have hresult : (s.schemas.rootType type).result.run.fresh = .ok (.ok root) := by
    rw [Session.fresh_result, hfresh]
  rw [hasEnumRoot, fresh_bind_run_of_ok hresult]
  dsimp only
  rw [hparse]
  rfl

/-- A check of keys that has no complaints about a table has none about its keys of enum types. -/
theorem combinedKeysOf_eq_nil (h : (tableKeys s w t).run.fresh = .ok []) {k : SchemaColumn}
    (hk : k ∈ t.columns.values) (hkey : k.expr.isKey = true) {name : String}
    (hroot : s.defs.enumRoot? k.type = some name) : combinedKeysOf s w t.name k.name = [] := by
  rw [tableKeys, fresh_bind_run] at h
  obtain ⟨combined, hcombined, h⟩ := Except.exists_of_bind_ok h
  obtain ⟨hfirst, -⟩ := List.append_eq_nil_iff.1 (Except.ok.inj h)
  obtain ⟨-, rfl⟩ := List.append_eq_nil_iff.1 hfirst
  rw [combinedKeys, fresh_bind_run, fresh_mapM_run] at hcombined
  obtain ⟨found, hfound, hflat⟩ := Except.exists_of_bind_ok hcombined
  have hmem : k ∈ keyColumns t := List.mem_filter.2 ⟨hk, hkey⟩
  obtain ⟨ds, hds, hcolumn⟩ := (Except.mapM_eq_ok_iff.1 hfound).exists_of_mem_left hmem
  rw [fresh_bind_run, fresh_hasEnumRoot hroot] at hcolumn
  obtain rfl : combinedKeysOf s w t.name k.name = ds := Except.ok.inj hcolumn
  exact List.flatten_eq_nil_iff.1 (Except.ok.inj hflat) _ hds

/-- **Cells that the check of keys looks at combine no members**, if it has no complaints. -/
theorem not_combines {table column : String} (h : combinedKeysOf s w table column = [])
    {sheet : Sheet} (hsheet : sheet ∈ w.sheets) {bold : Bool}
    (htier : tierOf? s table sheet = some bold) {c : SheetColumn}
    (hc : sheet.column? bold column = some c) {row : Nat} {cell : Cell}
    (hcell : c.cells.get? row = some cell) : combines cell = false := by
  rw [combinedKeysOf, List.map_eq_nil_iff, List.filter_eq_nil_iff] at h
  have hcolumn := List.find?_some hc
  rw [Bool.and_eq_true] at hcolumn
  obtain ⟨e, he, rfl⟩ := Option.map_eq_some_iff.1 hcell
  have htiered : c ∈ (sheet.tier bold).filter (·.name == column) :=
    List.mem_filter.2 ⟨List.mem_filter.2 ⟨List.mem_of_find?_eq_some hc, hcolumn.1⟩, hcolumn.2⟩
  have hread : (sheet.location.atRow e.1, e.2) ∈ w.sheets.flatMap (cellsOf s table column) := by
    refine List.mem_flatMap.2 ⟨sheet, hsheet, ?_⟩
    rw [cellsOf, htier]
    exact List.mem_flatMap.2 ⟨c, htiered, List.mem_map.2 ⟨e, List.mem_of_find?_eq_some he, rfl⟩⟩
  simpa using h _ hread

end Check

/-! ### Where keys come from -/

namespace Session

variable (s : Session) (x : SheetRow)

/-- A generated column of a row: its cell is that of a key in the bold tier. -/
def Generated (column : String) : Prop :=
  x.bold = false ∧ x.sheet.hasBold = true ∧ column = s.settings.parentColumn

/-- The check of keys does not look at the cell that goes into a column of a row as at a key of an
enum type. -/
inductive Unread (column : String) : Prop
  /-- The cell is one of a bold tier that goes into the table of the sheet, and so into that of the
  normal tier. -/
  | merged (hname : s.settings.parentTable x.sheet.table = x.sheet.table)
      (hcell : x.bold = true ∨ s.Generated x column)
  /-- The cell is that of a primary key of another type. -/
  | other (hcell : s.Generated x column) {key : SchemaColumn} {c : SheetColumn}
      (hkey : s.KeyedBy x.sheet key c) (hroot : s.defs.enumRoot? key.type = none)

/-- The cell that the value of a column in a row stems from: references lead to it from the cell
that goes into the column, and it has that value. -/
structure KeyStem (k : SchemaColumn) (v : Value) (cell : Cell) (stem : Definitions.Slot) :
    Prop where
  /-- The cell that goes into the column. -/
  source : s.sourceCell? x.sheet x.bold x.row k.name = some cell
  /-- The cell behind all references. -/
  follows : s.defs.Follows (k.type, cell) stem
  /-- The value. -/
  value : (s.defs.cast stem.1 stem.2).run.fresh = .ok v

end Session

namespace Session

variable {s : Session} {w : Workbook} {x : SheetRow} {t : Schema} {k : SchemaColumn} {cell : Cell}

theorem tierOf?_of_target (hn : s.schemas.Named) {sheet : Sheet} {bold : Bool}
    (ht : s.target? sheet bold = some t) (hbold : bold = true → sheet.hasBold = true)
    (hapart : bold = true → s.settings.parentTable sheet.table ≠ sheet.table) :
    Check.tierOf? s t.name sheet = some bold := by
  have hname : t.name = if bold then s.settings.parentTable sheet.table else sheet.table :=
    hn.name_eq ht
  rw [Check.tierOf?, hname]
  cases bold with
  | false => exact if_pos rfl
  | true =>
    rw [if_pos rfl, if_neg (hapart rfl).symm, hbold rfl]
    simp

/-- The value of a column in a row that is cast stems from a cell. -/
theorem CastAs.exists_keyStem {p : PlacedRow} (h : s.CastAs x p)
    (ht : s.target? x.sheet x.bold = some t) (hk : k ∈ t.columns.values) :
    ∃ v cell stem, p.2.2.values.find? k.name = some v ∧ s.KeyStem x k v cell stem := by
  obtain ⟨v, cell, hv, hsource, hvalue⟩ := h.exists_value ht hk
  obtain ⟨stem, hfollows, hstem⟩ := Definitions.exists_follows (x := (k.type, cell))
    (s.defs.remembers_computed Definitions.anyTexts).toRemembersNames hvalue
  exact ⟨v, cell, stem, hv, hsource, hfollows, hstem⟩

/-- A cell that combines members goes into a key of an enum type only where the check of keys does
not look at it. -/
theorem unread_of_combines (hn : s.schemas.Named)
    (hkeys : ∀ t ∈ s.schemas.values, (Check.tableKeys s w t).run.fresh = .ok [])
    (hsheet : x.sheet ∈ w.sheets) (ht : s.target? x.sheet x.bold = some t)
    (hk : k ∈ t.columns.values) (hkey : k.expr.isKey = true) {name : String}
    (hroot : s.defs.enumRoot? k.type = some name)
    (hcell : s.sourceCell? x.sheet x.bold x.row k.name = some cell)
    (hcombines : Check.combines cell = true) : s.Unread x k.name := by
  by_cases hmerged : s.settings.parentTable x.sheet.table = x.sheet.table ∧
      (x.bold = true ∨ s.Generated x k.name)
  · exact .merged hmerged.1 hmerged.2
  unfold sourceCell? at hcell
  split at hcell
  · rename_i hgenerated
    simp only [Bool.and_eq_true, Bool.not_eq_true', beq_iff_eq] at hgenerated
    have hgenerated : s.Generated x k.name := ⟨hgenerated.1.1, hgenerated.1.2, hgenerated.2⟩
    obtain ⟨key, c, p, hkeyed, -, hcell⟩ := owner_of_parentCell? hcell
    cases hother : s.defs.enumRoot? key.type with
    | none => exact .other hgenerated hkeyed hother
    | some other =>
      obtain ⟨parent, hparent, hprimary⟩ := Option.bind_eq_some_iff.1 hkeyed.primary
      have hiskey : parent.IsKey key := .inl hprimary
      have hnil := Check.combinedKeysOf_eq_nil (hkeys parent (Keyed.mem_values_of_find? hparent))
        hiskey.mem hiskey.isKey hother
      have htier : Check.tierOf? s parent.name x.sheet = some true :=
        tierOf?_of_target hn hparent (fun _ => hgenerated.2.1) fun _ hname =>
          hmerged ⟨hname, .inr hgenerated⟩
      have hsingle := Check.not_combines hnil hsheet htier hkeyed.found hcell
      rw [hsingle] at hcombines
      cases hcombines
  · obtain rfl := Option.some.inj hcell
    cases hcolumn : (x.sheet.column? x.bold k.name).bind (·.cells.get? x.row) with
    | none =>
      rw [hcolumn] at hcombines
      cases hcombines
    | some cell =>
      rw [hcolumn, Option.getD_some] at hcombines
      obtain ⟨c, hc, hcell⟩ := Option.bind_eq_some_iff.1 hcolumn
      have hnil :=
        Check.combinedKeysOf_eq_nil (hkeys t (Keyed.mem_values_of_find? ht)) hk hkey hroot
      have htier : Check.tierOf? s t.name x.sheet = some x.bold := by
        refine tierOf?_of_target hn ht (fun hbold => ?_) fun hbold hname =>
          hmerged ⟨hname, .inl hbold⟩
        have hbolded := List.find?_some hc
        simp only [hbold, Bool.and_eq_true, beq_iff_eq] at hbolded
        exact List.any_eq_true.2 ⟨c, List.mem_of_find?_eq_some hc, hbolded.1⟩
      have hsingle := Check.not_combines hnil hsheet htier hc hcell
      rw [hsingle] at hcombines
      cases hcombines

end Session

/-! ### Compilations -/

/-- The keys of enum types in the data of a workbook: every row of every table has a value for every
key column with an enum at its root. The value stems from a cell of a row in the sheet at the place
of the row. That cell combines members only if the cell that goes into the column is a reference, or
one that the check of keys does not look at. -/
def Session.EnumKeysStem (s : Session) (w : Workbook) : Prop :=
  ∀ t ∈ s.schemas.values, ∀ k ∈ t.columns.values, k.expr.isKey = true →
    ∀ name, s.defs.enumRoot? k.type = some name →
      ∀ sheet ∈ s.data.sheets t.name, ∀ r ∈ sheet.rows,
        ∃ v, r.values.find? k.name = some v ∧
          ∃ x ∈ w.rows, x.sheet.location = sheet.location ∧ x.row = r.row ∧
            s.target? x.sheet x.bold = some t ∧
            ∃ cell stem, s.KeyStem x k v cell stem ∧
              (Check.combines stem.2 = true →
                cell.constRef?.isSome = true ∨ s.Unread x k.name)

namespace Workbook

variable {w : Workbook} {settings : Settings} {workers : Nat}

/-- **Keys of enum types.** If a compilation with any number of workers comes to an end, the keys of
enum types stem from cells that combine no members, references and cells that the check of keys does
not look at apart. -/
theorem Runs.enum_keys {c : Compiled} (h : w.Runs settings workers (.ok c)) :
    ∃ s, w.Prepares settings workers s ∧ c = s.compiled ∧ s.EnumKeysStem w := by
  obtain ⟨s, hprepares, rfl, hsilent⟩ := h.prepares
  refine ⟨s, hprepares, rfl, fun t ht k hk hkey name hroot sheet hsheet r hr => ?_⟩
  have hkeys : ∀ t ∈ s.schemas.values, (Check.tableKeys s w t).run.fresh = .ok [] :=
    fun t ht => hsilent Check.keys (by simp [Check.all]) _
      (List.mem_append_left _ (List.mem_map_of_mem ht))
  have hplaced : (t.name, sheet.location, r) ∈ s.data.placed :=
    TableData.mem_placed.2 ⟨sheet, hsheet, rfl, hr⟩
  obtain ⟨x, hx, hcast⟩ := hprepares.exists_castAs hplaced
  have htarget : s.target? x.sheet x.bold = some t := by
    have hfind := hprepares.named.find?_name ht
    have htable : t.name = tierTable s.settings x.sheet.table x.bold := hcast.table
    rwa [htable] at hfind
  obtain ⟨v, cell, stem, hv, hstem⟩ := hcast.exists_keyStem htarget hk
  refine ⟨v, hv, x, hx, hcast.location.symm, hcast.row.symm, htarget, cell, stem, hstem,
    fun hcombines => ?_⟩
  obtain ⟨hsource, hfollows, -⟩ := hstem
  cases hfollows with
  | here plain =>
    exact .inr (Session.unread_of_combines hprepares.named hkeys (mem_rows.1 hx).1 htarget hk hkey
      hroot hsource hcombines)
  | const hlink => exact .inl (by rw [hlink]; rfl)

/-- Rules that are keyed by flags, with constants of one flag and of two. -/
def flagRules (columns : List SheetColumn) : Workbook where
  enums := [⟨⟨"flag.xlsx", "Flag", none⟩, "Flag", [("A", "1"), ("B", "2")]⟩]
  consts := [("One", "B"), ("Both", "A|B")].map fun (name, value) =>
    { location := ⟨"game.xlsx", "Game", none⟩, table := "Game", name, type := "Flag",
      scope := .common, value := .text value }
  sheets := [
    { location := ⟨"rule.xlsx", "Rule", none⟩, table := "Rule", based := none, group := none,
      columns }]

/-- Rules below the flags that they are for. The flag of the second group is a constant. -/
def grouped : Workbook :=
  flagRules [
    ⟨"Flag", "*Flag", .common, true, .ofList [(1, .text "A"), (4, .text "Const:Game:One")]⟩,
    ⟨"Id", "*Flag", .common, false, .ofList [(2, .text "A"), (3, .text "B"), (5, .text "A")]⟩]

/-- Two workers compile the rules to five rows, whose keys stem from single flags. -/
theorem grouped_enum_keys : ∃ c s, grouped.Runs {} 2 (.ok c) ∧ c.data.rowCount = 5 ∧
    grouped.Prepares {} 2 s ∧ c = s.compiled ∧ s.EnumKeysStem grouped := by
  have hrows : (grouped.compile {}).run.fresh.toOption.any (·.data.rowCount == 5) = true := by
    decide +kernel
  cases hc : (grouped.compile {}).run.fresh with
  | error f =>
    rw [hc] at hrows
    cases hrows
  | ok c =>
    rw [hc] at hrows
    have hruns := runs_of_fresh hc 2
    obtain ⟨s, hs, hcompiled, hstem⟩ := Runs.enum_keys hruns
    exact ⟨c, s, hruns, eq_of_beq hrows, hs, hcompiled, hstem⟩

/-- A compilation comes to an end with a key of an enum type that stems from a cell in which members
are combined. -/
def CombinesKey (w : Workbook) (settings : Settings) : Prop :=
  ∃ c s, w.Runs settings 1 (.ok c) ∧ w.Prepares settings 1 s ∧ c = s.compiled ∧
    ∃ t ∈ c.schemas.values, ∃ k ∈ t.columns.values, k.expr.isKey = true ∧
      (∃ name, s.defs.enumRoot? k.type = some name) ∧
      ∃ p ∈ s.data.placed, p.1 = t.name ∧ ∃ v, p.2.2.values.find? k.name = some v ∧
        ∃ x ∈ w.rows, s.CastAs x p ∧ ∃ cell stem, s.KeyStem x k v cell stem ∧
          Check.combines stem.2 = true

/-- Whether a cell combines members, or the constant that it refers to does. -/
def standsForCombination (d : Definitions) (cell : Cell) : Bool :=
  match cell.constRef? with
  | none => Check.combines cell
  | some link => (d.consts.find? link).any fun constant =>
      constant.value.constRef?.isNone && Check.combines constant.value

/-- What is to be tested of a key in a row: it is of an enum type, and the cell that goes into it
stands for a combination. -/
def keyCombines (x : SheetRow) (column : String) (s : Session) : Bool :=
  (s.target? x.sheet x.bold).any fun t => (t.columns.find? column).any fun k =>
    k.expr.isKey && (s.defs.enumRoot? k.type).isSome &&
      (s.sourceCell? x.sheet x.bold x.row k.name).any (standsForCombination s.defs)

theorem combines_of_standsForCombination {d : Definitions} {type : String} {cell : Cell}
    {stem : Definitions.Slot} (h : standsForCombination d cell = true)
    (hstem : d.Follows (type, cell) stem) : Check.combines stem.2 = true := by
  unfold standsForCombination at h
  split at h
  · rename_i plain
    rwa [← Definitions.Follows.unique (.here plain) hstem]
  · rename_i link hlink
    obtain ⟨constant, hconst, h⟩ := (Option.any_eq_true _ _).1 h
    simp only [Bool.and_eq_true, Option.isNone_iff_eq_none] at h
    rw [← Definitions.Follows.unique (.const hlink hconst (.here h.1)) hstem]
    exact h.2

/-- A compilation that passes the test has such a key. -/
theorem combinesKey_of_test {x : SheetRow} (hx : x ∈ w.rows) (column : String)
    (hok : (w.compile settings).run.fresh.toOption.isSome = true)
    (h : (w.prepare settings).run.fresh.toOption.any (keyCombines x column) = true) :
    w.CombinesKey settings := by
  cases hc : (w.compile settings).run.fresh with
  | error f =>
    rw [hc] at hok
    cases hok
  | ok c =>
    have hruns := runs_of_fresh hc 1
    obtain ⟨s, hs, rfl, -⟩ := hruns.prepares
    rw [prepares_iff.1 hs] at h
    have h : keyCombines x column s = true := h
    obtain ⟨t, htarget, h⟩ := (Option.any_eq_true _ _).1 h
    obtain ⟨k, hk, h⟩ := (Option.any_eq_true _ _).1 h
    simp only [Bool.and_eq_true] at h
    obtain ⟨⟨hkey, hroot⟩, hcell⟩ := h
    obtain ⟨cell, hsource, hcell⟩ := (Option.any_eq_true _ _).1 hcell
    obtain ⟨p, hp, hcast⟩ := hs.exists_stored hx
    have ht := Keyed.mem_values_of_find? htarget
    have hk := Keyed.mem_values_of_find? hk
    obtain ⟨v, cell', stem, hv, hstem⟩ := hcast.exists_keyStem htarget hk
    cases hsource.symm.trans hstem.source
    exact ⟨_, s, hruns, hs, rfl, t, ht, k, hk, hkey, Option.isSome_iff_exists.1 hroot, p, hp,
      hcast.table.trans (hs.named.name_eq htarget).symm, v, hv, x, hx, hcast, cell, stem, hstem,
      combines_of_standsForCombination hcell hstem.follows⟩

/-- A rule for two flags, by a reference to a constant. -/
def byConstant : Workbook :=
  flagRules [⟨"Flag", "*Flag", .common, false, .ofList [(1, .text "Const:Game:Both")]⟩]

/-- A rule for two flags in the bold tier. -/
def inBold : Workbook :=
  flagRules [⟨"Flag", "*Flag", .common, true, .ofList [(1, .text "A|B")]⟩]

/-- A rule below a group whose key is of another type than its flag. -/
def belowText : Workbook :=
  flagRules [
    ⟨"Flag", "(Flag)", .common, true, .ofList [(1, .text "3")]⟩,
    ⟨"Code", "*string", .common, true, .ofList [(1, .text "A|B")]⟩,
    ⟨"Name", "string", .common, false, .ofList [(2, .text "x")]⟩]

/-- **Combined keys that are not reported**: a reference to a constant, a key in a bold tier that
goes into the table of its sheet, and a generated column whose type leads to the group key while its
cell is that of the primary key. -/
theorem rules_combined : byConstant.CombinesKey {} ∧
    inBold.CombinesKey { parentTableFormat := "\x7btable\x7d" } ∧ belowText.CombinesKey {} := by
  refine ⟨?_, ?_, ?_⟩
  · refine combinesKey_of_test (x := ⟨byConstant.sheets.head!, false, 1⟩)
      (mem_rows.2 ⟨List.mem_singleton.2 rfl, by decide⟩) "Flag" ?_ ?_
    all_goals decide +kernel
  · refine combinesKey_of_test (x := ⟨inBold.sheets.head!, true, 1⟩)
      (mem_rows.2 ⟨List.mem_singleton.2 rfl, by decide⟩) "Flag" ?_ ?_
    all_goals decide +kernel
  · refine combinesKey_of_test (x := ⟨belowText.sheets.head!, false, 2⟩)
      (mem_rows.2 ⟨List.mem_singleton.2 rfl, by decide⟩) "Parent" ?_ ?_
    all_goals decide +kernel

end Workbook

end TypedSheets
