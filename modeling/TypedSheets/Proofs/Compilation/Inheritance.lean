import Mathlib.Logic.Relation
import TypedSheets.Proofs.Compilation.Columns

/-!
# Inherited columns

The first sheet of a table that inherits from another declares the columns of the first sheet of its
base table, with their types and for all the outputs that they belong to; along a chain of base
tables, those of all of them. So a table has the columns of its base tables. But the sheets are
compared before they are parted into tiers: a column that is normal in the base table may be bold in
the table that inherits it, and then only the parent table has it.

## Main definitions

* `Sheet.Covers` — a sheet declares the columns of another.
* `Session.BasedOn`, `Session.CarriesColumn` — base tables, and inherited columns of a table.

## Main results

* `Workbook.covers_of_transGen` — along a chain of base tables, sheets cover each other.
* `Workbook.Prepares.carries` — a table carries the columns of its base tables.
* `Workbook.boldArms_uncarried` — an inherited column that is bold.
-/

namespace TypedSheets

/-! ### Sheets -/

/-- Every output of `c` is one of `a` if it is one of `b` in between. -/
theorem Scope.contains_trans {a b c : Scope} (h : a.contains b = true) (h' : b.contains c = true) :
    a.contains c = true := by
  revert h h'
  cases a <;> cases b <;> cases c <;> decide

/-- A sheet declares the columns of another: its first column of each of their names has their type
and belongs to all outputs that they belong to. -/
def Sheet.Covers (heir base : Sheet) : Prop :=
  ∀ x ∈ base.columns, ∃ own, heir.columns.find? (·.name == x.name) = some own ∧
    own.type = x.type ∧ own.scope.contains x.scope = true

theorem Sheet.Covers.trans {a b c : Sheet} (h : a.Covers b) (h' : b.Covers c) : a.Covers c := by
  intro x hx
  obtain ⟨y, hy, htype, hscope⟩ := h' x hx
  obtain ⟨z, hz, htype', hscope'⟩ := h y (List.mem_of_find?_eq_some hy)
  have hname : y.name = x.name := by simpa using List.find?_some hy
  rw [hname] at hz
  exact ⟨z, hz, htype'.trans htype, Scope.contains_trans hscope' hscope⟩

namespace Session

/-- A table inherits from another. -/
def BasedOn (s : Session) (table base : String) : Prop :=
  (s.schemas.find? table).bind (·.based) = some base

/-- A table carries a column of a base table: it has a column of its name and its type that belongs
to all outputs that the column belongs to. -/
def CarriesColumn (s : Session) (table : String) (c : SchemaColumn) : Prop :=
  ∃ t d, s.schemas.find? table = some t ∧ t.columns.find? c.name = some d ∧ d.type = c.type ∧
    d.scope.contains c.scope = true

end Session

/-- A table whose base tables can be counted has a base table if it names one. -/
theorem Schemas.exists_base {ss : Schemas} {name base : String} {t : Schema} {n : Nat}
    (h : ss.inheritanceDepth name = .ok n) (ht : ss.find? name = some t)
    (hbase : t.based = some base) : ∃ u, ss.find? base = some u := by
  rw [inheritanceDepth, ht] at h
  dsimp only at h
  rw [depthFrom, hbase] at h
  dsimp only at h
  split at h
  · cases h
  · split at h
    · cases h
    · rename_i u hu
      exact ⟨u, hu⟩

namespace Workbook

variable {w : Workbook} {settings : Settings} {workers : Nat} {s : Session}

/-- A sheet without conflicts covers the first sheet of its base table. -/
theorem exists_covered {sheet : Sheet} {base : String}
    (h : w.inheritanceConflicts sheet = []) (hbase : sheet.based = some base) :
    ∃ source, w.sheetOf? base = some source ∧ sheet.Covers source := by
  rw [inheritanceConflicts, hbase] at h
  dsimp only at h
  split at h
  · cases h
  · rename_i source hsource
    refine ⟨source, hsource, fun x hx => ?_⟩
    have hnone := List.flatMap_eq_nil_iff.1 h x (mem_sortBy.2 hx)
    unfold inheritedConflicts at hnone
    split at hnone
    · cases hnone
    · rename_i own hown
      rw [List.append_eq_nil_iff] at hnone
      refine ⟨own, hown, ?_, ?_⟩
      · by_contra htype
        rw [if_neg htype] at hnone
        cases hnone.1
      · by_contra hscope
        rw [if_neg hscope] at hnone
        cases hnone.2

/-- A table that inherits is built from the normal tier of its first sheet, which covers the first
sheet of its base table. -/
theorem exists_first_of_basedOn (hs : w.resolved settings = .ok s) {table base : String}
    (h : s.BasedOn table base) :
    ∃ sheet ∈ w.firsts, sheet.table = table ∧
      (∃ t, s.schemas.find? table = some t ∧ w.Becomes settings sheet false t) ∧
      ∃ source ∈ w.firsts, source.table = base ∧ sheet.Covers source := by
  obtain ⟨t, ht, hbase⟩ := Option.bind_eq_some_iff.1 h
  obtain ⟨sheet, hfirst, bold, -, hbecomes, hname⟩ := exists_becomes_of_find? hs ht
  cases bold with
  | true =>
    rw [hbecomes.based] at hbase
    cases hbase
  | false =>
    obtain ⟨schemas, hschemas, -⟩ := schemas_of_resolved hs
    obtain ⟨hconflicts, -⟩ := resolveSheet_of_resolve hschemas hfirst
    obtain ⟨source, hsource, hcovers⟩ :=
      exists_covered hconflicts (hbecomes.based.symm.trans hbase)
    exact ⟨sheet, hfirst, hname, ⟨t, ht, hbecomes⟩, source, mem_firsts_of_sheetOf? hsource,
      table_of_sheetOf? hsource, hcovers⟩

/-- **Along a chain of base tables, the first sheet of a table covers that of each base table.** -/
theorem covers_of_transGen (hs : w.resolved settings = .ok s) {table base : String}
    (h : Relation.TransGen s.BasedOn table base) :
    ∃ sheet ∈ w.firsts, sheet.table = table ∧
      (∃ t, s.schemas.find? table = some t ∧ w.Becomes settings sheet false t) ∧
      ∃ source ∈ w.firsts, source.table = base ∧ sheet.Covers source := by
  induction h with
  | single hlink => exact exists_first_of_basedOn hs hlink
  | tail _ hlink ih =>
    obtain ⟨sheet, hfirst, hname, hbecomes, middle, hmiddle, rfl, hcovers⟩ := ih
    obtain ⟨middle', hmiddle', hname', -, source, hsource, hbase, hcovers'⟩ :=
      exists_first_of_basedOn hs hlink
    cases eq_of_mem_firsts hmiddle hmiddle' hname'
    exact ⟨sheet, hfirst, hname, hbecomes, source, hsource, hbase, hcovers.trans hcovers'⟩

/-! ### Tables -/

theorem inheritanceFaults_of_resolved (hs : w.resolved settings = .ok s) :
    s.inheritanceFaults = [] := by
  unfold resolved at hs
  obtain ⟨schemas, -, hs⟩ := Except.exists_of_bind_ok hs
  dsimp only at hs
  split at hs
  · rename_i hnone
    cases hs
    exact List.isEmpty_iff.1 hnone
  · cases hs

/-- In a resolved workbook the base table of every table is there. -/
theorem exists_base (hs : w.resolved settings = .ok s) {table base : String}
    (h : s.BasedOn table base) : ∃ u, s.schemas.find? base = some u := by
  obtain ⟨t, ht, hbase⟩ := Option.bind_eq_some_iff.1 h
  have hnone := List.filterMap_eq_nil_iff.1 (inheritanceFaults_of_resolved hs) t
    (Keyed.mem_values_of_find? ht)
  rw [(resolved_named hs).name_eq ht] at hnone
  cases hdepth : s.schemas.inheritanceDepth table with
  | ok n => exact Schemas.exists_base hdepth ht hbase
  | error f =>
    rw [hdepth] at hnone
    cases hnone

/-- The generated column of a table whose first sheet has a bold tier. -/
def Generated (w : Workbook) (settings : Settings) (table : String) (c : SchemaColumn) : Prop :=
  c.name = settings.parentColumn ∧ ∃ sheet ∈ w.firsts, sheet.table = table ∧ sheet.tier true ≠ []

/-- The first column of a name that the first sheet of a table declares. -/
def FirstNamed (w : Workbook) (table name : String) (x : SheetColumn) : Prop :=
  ∃ sheet, w.sheetOf? table = some sheet ∧ sheet.columns.find? (·.name == name) = some x

/-- The table of a tier carries what one of its columns has. -/
theorem carriesColumn_of_find? {sheet : Sheet} {bold : Bool} {t : Schema} {name : String}
    (ht : s.schemas.find? name = some t) (hbecomes : w.Becomes settings sheet bold t)
    (htypes : typeFaults sheet = [])
    (hnames : bold = true → ((sheet.tier true).map (·.name)).Nodup) {x : SheetColumn}
    (hx : x ∈ sheet.tier bold) {c : SchemaColumn} (hname : x.name = c.name)
    (htype : x.type = c.type) (hscope : x.scope.contains c.scope = true) :
    s.CarriesColumn name c := by
  obtain ⟨d, hd, hmade⟩ := hbecomes.find?_column htypes hnames hx
  refine ⟨t, d, ht, hname ▸ hd, hmade.type.trans htype, ?_⟩
  rw [hmade.scope]
  exact hscope

/-- **A table has the columns of its base tables, in the tier in which it first declares them.** For
every table and every base table above it, if no parent table has taken the place of the base table,
then every column of the base table but the generated one is declared by the first sheet of the
table. If the first column there of that name is normal, then the table has a column of that name
with the same type that belongs to all outputs the column of the base table belongs to; if it is
bold, then the parent table has, unless some other tier has taken its place or some bold columns
have one name. -/
theorem Prepares.carries (h : w.Prepares settings workers s) {table base : String}
    (hchain : Relation.TransGen s.BasedOn table base) (halone : w.Undisplaced settings base false) :
    ∃ t, s.schemas.find? base = some t ∧ ∀ c ∈ t.columns.values,
      ¬ w.Generated settings base c → ∃ own, w.FirstNamed table c.name own ∧
        (own.bold = false → s.CarriesColumn table c) ∧
        (own.bold = true → w.Undisplaced settings table true →
          (∀ sheet, w.sheetOf? table = some sheet → ((sheet.tier true).map (·.name)).Nodup) →
          s.CarriesColumn (settings.parentTable table) c) := by
  obtain ⟨s₀, data, hs, -, rfl⟩ := h.exists_resolved
  have hchain : Relation.TransGen s₀.BasedOn table base := hchain
  obtain ⟨schemas, hschemas, -⟩ := schemas_of_resolved hs
  obtain ⟨sheet, hfirst, rfl, ⟨u, hu, hbecomes⟩, source, hsource, rfl, hcovers⟩ :=
    covers_of_transGen hs hchain
  have htypes := typeFaults_of_resolve hschemas hfirst
  -- the base table is built from the normal tier of its own first sheet
  obtain ⟨t, ht⟩ : ∃ t, s₀.schemas.find? source.table = some t := by
    obtain ⟨middle, -, hlink⟩ := Relation.TransGen.tail'_iff.1 hchain
    exact exists_base hs hlink
  obtain ⟨source', hsource', bold, htier, hbase, hname⟩ := exists_becomes_of_find? hs ht
  obtain ⟨hsame, rfl⟩ := halone source' hsource' bold htier hname
  cases eq_of_mem_firsts hsource hsource' hsame
  refine ⟨t, ht, fun c hc hgenerated => ?_⟩
  rcases hbase.column_cases (typeFaults_of_resolve hschemas hsource) hc with
    ⟨x, hx, hmade⟩ | ⟨-, hbold, key, hlink⟩
  · obtain ⟨own, hown, htype, hscope⟩ := hcovers x (List.mem_of_mem_filter hx)
    have hownname : own.name = c.name := by
      rw [hmade.name]
      simpa using List.find?_some hown
    rw [← hmade.name] at hown
    rw [← hmade.type] at htype
    rw [← hmade.scope] at hscope
    have hmem {bold : Bool} (hbold : own.bold = bold) : own ∈ sheet.tier bold :=
      List.mem_filter.2 ⟨List.mem_of_find?_eq_some hown, by simp [hbold]⟩
    refine ⟨own, ⟨sheet, mem_firsts.1 hfirst, hown⟩, fun hbold => ?_, fun hbold halone hnames => ?_⟩
    · exact carriesColumn_of_find? hu hbecomes htypes nofun (hmem hbold) hownname htype hscope
    · obtain ⟨p, hp, hparent⟩ :=
        find?_of_undisplaced hs hfirst (List.ne_nil_of_mem (hmem hbold)) halone
      exact carriesColumn_of_find? hp hparent htypes (fun _ => hnames sheet (mem_firsts.1 hfirst))
        (hmem hbold) hownname htype hscope
  · exact absurd ⟨(parentLink_ok hlink).1, source, hsource, rfl, hbold⟩ hgenerated

/-- Items, weapons and swords, each of which inherits from the one before; swords come in series. -/
def arms : Workbook where
  sheets := [
    { location := ⟨"item.xlsx", "Item", none⟩, table := "Item", based := none, group := none,
      columns := [⟨"Id", "*int", .common, false, .empty⟩,
        ⟨"Name", "string", .client, false, .empty⟩] },
    { location := ⟨"item.xlsx", "Weapon", none⟩, table := "Weapon", based := some "Item",
      group := none,
      columns := [⟨"Id", "*int", .common, false, .empty⟩,
        ⟨"Name", "string", .common, false, .empty⟩,
        ⟨"Damage", "int", .server, false, .empty⟩] },
    { location := ⟨"item.xlsx", "Sword", none⟩, table := "Sword", based := some "Weapon",
      group := none,
      columns := [⟨"Series", "*string", .common, true, .empty⟩,
        ⟨"Id", "*int", .common, false, .empty⟩,
        ⟨"Damage", "int", .common, false, .empty⟩, ⟨"Name", "string", .common, false, .empty⟩] }]

/-- Swords have the names of items, for more outputs. -/
theorem arms_carries : ∃ s t c, arms.Prepares {} 1 s ∧ s.schemas.find? "Item" = some t ∧
    t.columns.find? "Name" = some c ∧ s.CarriesColumn "Sword" c := by
  obtain ⟨s, hs, hp⟩ := arms.exists_prepares {} (p := fun s =>
    decide ((s.schemas.find? "Sword").bind (·.based) = some "Weapon") &&
    decide ((s.schemas.find? "Weapon").bind (·.based) = some "Item") &&
    (s.schemas.find? "Item").any fun t => (t.columns.find? "Name").any (·.name == "Name"))
    (by decide +kernel) 1
  simp only [Bool.and_eq_true, decide_eq_true_eq, Option.any_eq_true, beq_iff_eq] at hp
  obtain ⟨⟨hsword, hweapon⟩, t, ht, c, hc, hname⟩ := hp
  have hchain : Relation.TransGen s.BasedOn "Sword" "Item" := .tail (.single hsword) hweapon
  obtain ⟨t', ht', hall⟩ := hs.carries hchain (by decide +kernel)
  cases ht.symm.trans ht'
  have hplain : ¬ arms.Generated {} "Item" c := by
    rintro ⟨-, hbold⟩
    revert hbold
    decide +kernel
  obtain ⟨own, ⟨sheet, hsheet, hown⟩, hnormal, -⟩ :=
    hall c (Keyed.mem_values_of_find? hc) hplain
  refine ⟨s, t, c, hs, ht, hc, hnormal ?_⟩
  cases hsheet
  rw [hname] at hown
  cases hown
  rfl

/-- Items, and weapons that inherit from them with a bold key. -/
def boldArms : Workbook where
  sheets := [
    { location := ⟨"item.xlsx", "Item", none⟩, table := "Item", based := none, group := none,
      columns := [⟨"Id", "*int", .common, false, .empty⟩,
        ⟨"Name", "string", .common, false, .empty⟩] },
    { location := ⟨"item.xlsx", "Weapon", none⟩, table := "Weapon", based := some "Item",
      group := none,
      columns := [⟨"Id", "*int", .common, true, .empty⟩,
        ⟨"Name", "string", .common, false, .empty⟩] }]

/-- A table lacks a column of its base table, and nothing is complained about. -/
theorem boldArms_uncarried : ∃ s t c, boldArms.Prepares {} 1 s ∧ s.BasedOn "Weapon" "Item" ∧
    s.schemas.find? "Item" = some t ∧ c ∈ t.columns.values ∧ ¬ boldArms.Generated {} "Item" c ∧
      ¬ s.CarriesColumn "Weapon" c := by
  obtain ⟨s, hs, hp⟩ := boldArms.exists_prepares {} (p := fun s =>
    decide ((s.schemas.find? "Weapon").bind (·.based) = some "Item") &&
    ((s.schemas.find? "Weapon").all fun t => (t.columns.find? "Id").isNone) &&
    (s.schemas.find? "Item").any fun t => (t.columns.find? "Id").any (·.name == "Id"))
    (by decide +kernel) 1
  simp only [Bool.and_eq_true, decide_eq_true_eq, Option.any_eq_true, beq_iff_eq] at hp
  obtain ⟨⟨hbased, hlost⟩, t, ht, c, hc, hname⟩ := hp
  refine ⟨s, t, c, hs, hbased, ht, Keyed.mem_values_of_find? hc, ?_, ?_⟩
  · rintro ⟨-, hbold⟩
    revert hbold
    decide +kernel
  · rintro ⟨u, d, hu, hd, -⟩
    rw [hu, Option.all_some, ← hname, hd] at hlost
    cases hlost

end Workbook

end TypedSheets
