import TypedSheets.Proofs.Compilation.Rows
import TypedSheets.Proofs.Compilation.Tiers
import TypedSheets.Proofs.TypeExpr.RoundTrip

/-!
# Columns that are kept

Resolving a workbook moves the columns of the first sheet of each table into the tables of its
tiers. A column can get lost on the way: a table replaces one of the same name without a complaint,
and so does a bold column. Nothing else loses columns. So all columns are kept, each in an entry of
its own, just if no two tiers meet in one table and no bold tier has a name twice.

## Main definitions

* `Workbook.Declares` — the columns of first sheets, by their positions.
* `Workbook.LosesNoColumn` — every column is kept, in an entry of its own.
* `Workbook.Unmixed` — tiers have tables of their own, and bold columns have names of their own.

## Main results

* `Workbook.Prepares.losesNoColumn_iff` — when no column is lost.
* `Workbook.notes_lost` — bold columns of one name, of which one is lost.
-/

namespace TypedSheets

/-- A table has a column of the name, the type and the scope of a column of a sheet. -/
def Session.HoldsColumn (s : Session) (table : String) (x : SheetColumn) : Prop :=
  ∃ t c, s.schemas.find? table = some t ∧ t.columns.find? x.name = some c ∧ c.MadeFrom x

/-- No name of a tier occurs twice just if columns of the tier with one name are at one position. -/
theorem Sheet.nodup_names_iff {sheet : Sheet} {bold : Bool} :
    ((sheet.tier bold).map (·.name)).Nodup ↔ ∀ (k k' : Nat) (x x' : SheetColumn),
      sheet.columns[k]? = some x → sheet.columns[k']? = some x' → x.bold = bold → x'.bold = bold →
        x.name = x'.name → k = k' := by
  rw [List.Nodup, List.pairwise_map, tier, List.pairwise_filter, List.pairwise_iff_getElem]
  simp only [beq_iff_eq]
  constructor
  · intro h k k' x x' hx hx' hbold hbold' hname
    obtain ⟨hk, rfl⟩ := List.getElem?_eq_some_iff.1 hx
    obtain ⟨hk', rfl⟩ := List.getElem?_eq_some_iff.1 hx'
    rcases Nat.lt_trichotomy k k' with hlt | heq | hlt
    · exact absurd hname (h k k' hk hk' hlt hbold hbold')
    · exact heq
    · exact absurd hname.symm (h k' k hk' hk hlt hbold' hbold)
  · intro h k k' hk hk' hlt hbold hbold' hname
    have heq := h k k' _ _ (List.getElem?_eq_getElem hk) (List.getElem?_eq_getElem hk') hbold hbold'
      hname
    omega

namespace Workbook

variable {w : Workbook} {settings : Settings} {workers : Nat} {s : Session}

/-- The first sheet of a table has a column at a position. -/
def Declares (w : Workbook) (table : String) (k : Nat) (x : SheetColumn) : Prop :=
  ∃ sheet, w.sheetOf? table = some sheet ∧ sheet.columns[k]? = some x

/-- No column of a first sheet is lost: the table of its tier has it, with its type and its scope,
and has it for no other column. -/
structure LosesNoColumn (w : Workbook) (s : Session) : Prop where
  /-- The table of its tier has the column. -/
  found {table : String} {k : Nat} {x : SheetColumn} (h : w.Declares table k x) :
    s.HoldsColumn (tierTable s.settings table x.bold) x
  /-- Columns at different places are different columns of the tables. -/
  distinct {table table' : String} {k k' : Nat} {x x' : SheetColumn} (h : w.Declares table k x)
    (h' : w.Declares table' k' x')
    (htable : tierTable s.settings table x.bold = tierTable s.settings table' x'.bold)
    (hname : x.name = x'.name) : table = table' ∧ k = k'

/-- Tiers with columns have tables of their own, and the columns of a bold tier have names of their
own. -/
structure Unmixed (w : Workbook) (settings : Settings) : Prop where
  /-- Tables. -/
  tables : ∀ sheet ∈ w.firsts, ∀ bold, sheet.tier bold ≠ [] →
    w.Undisplaced settings sheet.table bold
  /-- Names. -/
  columns : ∀ sheet ∈ w.firsts, ((sheet.tier true).map (·.name)).Nodup

theorem exists_first_of_declares {table : String} {k : Nat} {x : SheetColumn}
    (h : w.Declares table k x) :
    ∃ sheet ∈ w.firsts, sheet.table = table ∧ sheet.columns[k]? = some x ∧
      x ∈ sheet.tier x.bold := by
  obtain ⟨sheet, hfirst, hx⟩ := h
  refine ⟨sheet, mem_firsts_of_sheetOf? hfirst, table_of_sheetOf? hfirst, hx, ?_⟩
  rw [Sheet.tier, List.mem_filter]
  exact ⟨List.mem_of_getElem? hx, beq_self_eq_true _⟩

theorem exists_declares_of_mem {sheet : Sheet} (hfirst : sheet ∈ w.firsts) {bold : Bool}
    {x : SheetColumn} (hx : x ∈ sheet.tier bold) :
    ∃ k, w.Declares sheet.table k x ∧ sheet.columns[k]? = some x ∧ x.bold = bold := by
  rw [Sheet.tier, List.mem_filter, beq_iff_eq] at hx
  obtain ⟨k, hk⟩ := List.getElem?_of_mem hx.1
  exact ⟨k, ⟨sheet, mem_firsts.1 hfirst, hk⟩, hk, hx.2⟩

/-- Without mixed tiers no name of a tier occurs twice. -/
theorem Unmixed.nodup_names (h : w.Unmixed settings) (hs : w.resolved settings = .ok s)
    {sheet : Sheet} (hfirst : sheet ∈ w.firsts) {bold : Bool} (htier : sheet.tier bold ≠ []) :
    ((sheet.tier bold).map (·.name)).Nodup := by
  cases bold with
  | true => exact h.columns sheet hfirst
  | false =>
    obtain ⟨schemas, hschemas, -⟩ := schemas_of_resolved hs
    obtain ⟨t, -, ht⟩ := find?_of_undisplaced hs hfirst htier (h.tables sheet hfirst false htier)
    exact ht.nodup_names (typeFaults_of_resolve hschemas hfirst)

/-- Without mixed tiers no column is lost. -/
theorem losesNoColumn_of_unmixed (hs : w.resolved settings = .ok s) (h : w.Unmixed settings) :
    w.LosesNoColumn s := by
  obtain ⟨schemas, hschemas, -⟩ := schemas_of_resolved hs
  obtain rfl := resolved_settings hs
  constructor
  · intro table k x hx
    obtain ⟨sheet, hfirst, rfl, -, hx⟩ := exists_first_of_declares hx
    have halone := h.tables sheet hfirst x.bold (List.ne_nil_of_mem hx)
    obtain ⟨t, ht, hbecomes⟩ := find?_of_undisplaced hs hfirst (List.ne_nil_of_mem hx) halone
    obtain ⟨c, hc, hmade⟩ := hbecomes.find?_column (typeFaults_of_resolve hschemas hfirst)
      (fun _ => h.columns sheet hfirst) hx
    exact ⟨t, c, ht, hc, hmade⟩
  · intro table table' k k' x x' hx hx' htable hname
    obtain ⟨sheet, hfirst, rfl, hk, hx⟩ := exists_first_of_declares hx
    obtain ⟨sheet', hfirst', rfl, hk', hx'⟩ := exists_first_of_declares hx'
    have htier := List.ne_nil_of_mem hx
    obtain ⟨hsame, hbold⟩ := h.tables sheet hfirst x.bold htier sheet' hfirst' x'.bold
      (List.ne_nil_of_mem hx') htable.symm
    cases eq_of_mem_firsts hfirst hfirst' hsame
    exact ⟨rfl, Sheet.nodup_names_iff.1 (h.nodup_names hs hfirst htier) k k' x x' hk hk' rfl hbold
      hname⟩

/-! ### Where no column is lost -/

/-- A generated column is no primary key. -/
theorem isPrimaryKey_parentLink {sheet : Sheet} {key link c : SchemaColumn}
    (h : parentLink settings sheet key = .ok link) (hc : c.type = link.type) :
    c.isPrimaryKey = false := by
  have hparse := c.parses
  rw [hc, (parentLink_ok h).2.1] at hparse
  have htext : ("($" ++ settings.parentTable sheet.table ++ ")").toList =
      '(' :: ('$' :: (settings.parentTable sheet.table).toList) ++ [')'] := by simp
  simpa [SchemaColumn.isPrimaryKey] using TypeExpr.key_ne_primary_of_parse htext hparse

/-- If no column is lost, the table of a tier is built from no other tier. -/
theorem LosesNoColumn.tier_eq (hs : w.resolved settings = .ok s) (h : w.LosesNoColumn s)
    {sheet sheet' : Sheet} {bold bold' : Bool} {t : Schema} (hfirst : sheet ∈ w.firsts)
    (htier : sheet.tier bold ≠ []) (hfirst' : sheet' ∈ w.firsts)
    (ht : s.schemas.find? (tierTable settings sheet.table bold) = some t)
    (hbecomes : w.Becomes settings sheet' bold' t) : sheet'.table = sheet.table ∧ bold' = bold := by
  obtain ⟨schemas, hschemas, -⟩ := schemas_of_resolved hs
  obtain rfl := resolved_settings hs
  have hname := (resolved_named hs).name_eq ht
  rw [hbecomes.name] at hname
  -- a column of the tier is in the table, so it is one of the other tier, or the generated one
  have hcolumn {x : SheetColumn} (hx : x ∈ sheet.tier bold) :
      (sheet'.table = sheet.table ∧ bold' = bold) ∨
        bold' = false ∧ ∃ key link, parentLink s.settings sheet' key = .ok link ∧
          link.type = x.type := by
    obtain ⟨k, hdeclares, hk, rfl⟩ := exists_declares_of_mem hfirst hx
    obtain ⟨t', c, ht', hc, hmade⟩ := h.found hdeclares
    cases ht.symm.trans ht'
    rcases hbecomes.column_cases (typeFaults_of_resolve hschemas hfirst')
      (Keyed.mem_values_of_find? hc) with ⟨x', hx', hmade'⟩ | ⟨hbold', -, key, hlink⟩
    · obtain ⟨k', hdeclares', hk', rfl⟩ := exists_declares_of_mem hfirst' hx'
      obtain ⟨htable, rfl⟩ := h.distinct hdeclares' hdeclares hname
        (hmade'.name.symm.trans hmade.name)
      cases eq_of_mem_firsts hfirst hfirst' htable
      cases hk.symm.trans hk'
      exact .inl ⟨rfl, rfl⟩
    · exact .inr ⟨hbold', key, c, hlink, hmade.type⟩
  cases bold with
  | false =>
    obtain ⟨x, hx⟩ := List.exists_mem_of_ne_nil _ htier
    rcases hcolumn hx with heq | ⟨rfl, -⟩
    · exact heq
    · exact ⟨hname, rfl⟩
  | true =>
    obtain ⟨p, -, hp⟩ := exists_mem_of_first hschemas hfirst htier
    cases hp with
    | parent hparent =>
      obtain ⟨hkey, hprimary⟩ := primary_of_parentSchema hparent
      obtain ⟨x, hx, hmade⟩ := (forall₂_tierColumns (typeFaults_of_resolve hschemas hfirst) true
        []).exists_of_mem_right hkey
      rcases hcolumn hx with heq | ⟨-, key, link, hlink, htype⟩
      · exact heq
      · rw [isPrimaryKey_parentLink hlink (hmade.type.trans htype.symm)] at hprimary
        cases hprimary

/-- If no column is lost, tiers are not mixed. -/
theorem LosesNoColumn.unmixed (hs : w.resolved settings = .ok s) (h : w.LosesNoColumn s) :
    w.Unmixed settings := by
  obtain rfl := resolved_settings hs
  constructor
  · intro sheet hfirst bold htier sheet' hfirst' bold' htier' hname
    obtain ⟨x, hx⟩ := List.exists_mem_of_ne_nil _ htier
    obtain ⟨k, hdeclares, -, rfl⟩ := exists_declares_of_mem hfirst hx
    obtain ⟨t, -, ht, -⟩ := h.found hdeclares
    obtain ⟨sheet₀, hfirst₀, bold₀, -, hbecomes, -⟩ := exists_becomes_of_find? hs ht
    obtain ⟨htable, hbold⟩ := h.tier_eq hs hfirst htier hfirst₀ ht hbecomes
    obtain ⟨htable', hbold'⟩ := h.tier_eq hs hfirst' htier' hfirst₀ (hname ▸ ht) hbecomes
    exact ⟨htable'.symm.trans htable, hbold'.symm.trans hbold⟩
  · intro sheet hfirst
    refine Sheet.nodup_names_iff.2 fun k k' x x' hx hx' hbold hbold' hname => ?_
    have hdeclares := mem_firsts.1 hfirst
    exact (h.distinct ⟨sheet, hdeclares, hx⟩ ⟨sheet, hdeclares, hx'⟩ (by rw [hbold, hbold'])
      hname).2

/-! ### Prepared workbooks -/

/-- **Resolving loses no column just if no tiers are mixed.** Every column of the first sheet of
every table is found in the table of its tier, with its type and its scope, and different columns
are found in different places, if and only if no two tiers meet in one table and no bold tier has a
name twice. -/
theorem Prepares.losesNoColumn_iff (h : w.Prepares settings workers s) :
    w.LosesNoColumn s ↔ w.Unmixed settings := by
  obtain ⟨s₀, data, hs, -, rfl⟩ := h.exists_resolved
  have hsame : w.LosesNoColumn { s₀ with data } ↔ w.LosesNoColumn s₀ :=
    ⟨fun h => ⟨h.found, h.distinct⟩, fun h => ⟨h.found, h.distinct⟩⟩
  rw [hsame]
  exact ⟨fun h => h.unmixed hs, losesNoColumn_of_unmixed hs⟩

/-- The menus of courses and dishes lose no column. -/
theorem menus_losesNoColumn : ∃ s, menus.Prepares { workers := 3, chunkSize := 2 } 3 s ∧
    menus.LosesNoColumn s := by
  obtain ⟨s, hs, -⟩ := menus.exists_prepares { workers := 3, chunkSize := 2 }
    (p := fun _ => true) (by decide +kernel) 3
  have hunmixed : menus.Unmixed { workers := 3, chunkSize := 2 } :=
    { tables := by decide +kernel
      columns := by decide +kernel }
  exact ⟨s, hs, hs.losesNoColumn_iff.2 hunmixed⟩

/-- A menu with two columns of notes on its courses. -/
def notes : Workbook where
  sheets := [
    { location := ⟨"menu.xlsx", "Menu", none⟩, table := "Dish", based := none, group := none,
      columns := [
        ⟨"Course", "*string", .common, true, .ofList [(1, .text "soups")]⟩,
        ⟨"Note", "int", .common, true, .ofList [(1, .text "4")]⟩,
        ⟨"Note", "string", .common, true, .ofList [(1, .text "hot")]⟩,
        ⟨"Name", "string", .common, false, .ofList [(2, .text "leek")]⟩] }]

/-- The first of two bold columns of one name is lost, and nothing is complained about. -/
theorem notes_lost : ∃ s, notes.Prepares {} 1 s ∧ ∃ x, notes.Declares "Dish" 1 x ∧
    ¬ s.HoldsColumn (tierTable s.settings "Dish" x.bold) x := by
  obtain ⟨s, hs, hnote⟩ := notes.exists_prepares {} (p := fun s =>
    ((s.schemas.find? (s.settings.parentTable "Dish")).bind (·.columns.find? "Note")).all
      fun c => c.type == "string") (by decide +kernel) 1
  refine ⟨s, hs, _, ⟨_, rfl, rfl⟩, ?_⟩
  rintro ⟨t, c, ht, hc, hmade⟩
  rw [show s.schemas.find? (s.settings.parentTable "Dish") = some t from ht, Option.bind_some,
    show t.columns.find? "Note" = some c from hc] at hnote
  have htype : c.type = "int" := hmade.type
  rw [Option.all_some, htype] at hnote
  cases hnote

end Workbook

end TypedSheets
