import TypedSheets.Proofs.Compilation.Targets

/-!
# The tables of tiers

A resolved workbook has one table for each tier of the first sheet of each table, entered under the
name of the tier's table. Nothing keeps two tiers from meeting in one name: the name of a parent
table may be that of another table, and then the last of them is the one that is found. A tier that
shares its name with no other is found as it was built.

## Main definitions

* `Workbook.firsts` — the first sheets of all tables.
* `Workbook.Becomes` — the table that a tier of a sheet is built to.
* `Workbook.Undisplaced` — no other tier has the table of a tier.

## Main results

* `Workbook.exists_becomes_of_find?` — every table of a resolved workbook is built from a tier.
* `Workbook.find?_of_undisplaced` — the table of an undisplaced tier is the one built from it.
* `Workbook.Becomes.entries_table`, `Workbook.Becomes.columns_parent`,
  `Workbook.Becomes.find?_column`, `Workbook.Becomes.column_cases` — the columns of that table.
-/

namespace TypedSheets

/-- A sheet with a bold column has a bold tier. -/
theorem Sheet.tier_ne_nil_of_hasBold {sheet : Sheet} (h : sheet.hasBold = true) :
    sheet.tier true ≠ [] := by
  obtain ⟨c, hc, hbold⟩ := List.any_eq_true.1 h
  exact List.ne_nil_of_mem (List.mem_filter.2 ⟨hc, by rw [hbold]; rfl⟩)

theorem Sheet.hasBold_of_tier_ne_nil {sheet : Sheet} (h : sheet.tier true ≠ []) :
    sheet.hasBold = true := by
  obtain ⟨c, hc⟩ := List.exists_mem_of_ne_nil _ h
  obtain ⟨hc, hbold⟩ := List.mem_filter.1 hc
  exact List.any_eq_true.2 ⟨c, hc, eq_of_beq hbold⟩

/-! ### Tables and their columns -/

/-- Under a name the last of the tables that have it is found. -/
theorem Schemas.find?_foldl_declare {ss : Schemas} {ts : List Schema} {t : Schema} (ht : t ∈ ts)
    (h : ∀ u ∈ ts, u.name = t.name → u = t) :
    (ts.foldl Schemas.declare ss).find? t.name = some t := by
  induction ts using List.reverseRecOn with
  | nil => cases ht
  | append_singleton ts u ih =>
    rw [List.foldl_append]
    show ((ts.foldl Schemas.declare ss).insert u.name u).find? t.name = some t
    by_cases hname : u.name = t.name
    · rw [hname, Keyed.find?_insert_self]
      exact congrArg some (h u (List.mem_append_right _ (List.mem_singleton.2 rfl)) hname)
    · rw [Keyed.find?_insert_of_ne _ _ (Ne.symm hname)]
      refine ih ?_ fun u' hu' => h u' (List.mem_append_left _ hu')
      rcases List.mem_append.1 ht with ht | ht
      · exact ht
      · cases List.mem_singleton.1 ht
        exact absurd rfl hname

/-- A table that is found is one of those that were declared. -/
theorem Schemas.mem_of_find?_foldl_declare {ss : Schemas} {ts : List Schema} {name : String}
    {t : Schema} (h : (ts.foldl Schemas.declare ss).find? name = some t) :
    t ∈ ts ∧ t.name = name ∨ ss.find? name = some t := by
  induction ts generalizing ss with
  | nil => exact .inr h
  | cons u ts ih =>
    rcases ih h with ⟨ht, hname⟩ | h
    · exact .inl ⟨List.mem_cons_of_mem u ht, hname⟩
    · by_cases hname : u.name = name
      · rw [← hname] at h
        cases (Keyed.find?_insert_self ..).symm.trans h
        exact .inl ⟨List.mem_cons_self .., hname⟩
      · exact .inr ((Keyed.find?_insert_of_ne ss u (Ne.symm hname)).symm.trans h)

namespace Schema

/-- Columns that are added are entered under their names, one after the other. -/
theorem columns_foldl_push (t : Schema) (cs : List SchemaColumn) :
    (cs.foldl Schema.push t).columns =
      (cs.map fun c => (c.name, c)).foldl (fun t e => t.insert e.1 e.2) t.columns := by
  induction cs generalizing t with
  | nil => rfl
  | cons c cs ih => exact ih (t.push c)

end Schema

/-- If no name is taken, all columns are added behind those that are there. -/
theorem entries_addColumns {t : Schema} {cs : List SchemaColumn} (h : (addColumns t cs).2 = []) :
    (addColumns t cs).1.columns.entries = t.columns.entries ++ cs.map fun c => (c.name, c) := by
  induction cs generalizing t with
  | nil => exact (List.append_nil _).symm
  | cons c cs ih =>
    unfold addColumns at h ⊢
    split
    · rename_i htaken
      rw [if_pos htaken] at h
      cases h
    · rename_i hfree
      rw [if_neg hfree] at h
      have hnew : c.name ∉ t.columns.keys := by
        rw [← Keyed.isSome_find?_iff]
        exact hfree
      rw [ih h]
      show (t.columns.insert c.name c).entries ++ _ = _
      rw [Keyed.entries_insert_of_not_mem hnew, List.append_assoc]
      rfl

namespace Workbook

variable {w : Workbook} {settings : Settings} {sheet : Sheet} {bold : Bool} {t : Schema}

/-! ### The table of a tier -/

/-- A tier of a sheet becomes a table: the bold tier the parent table, and the normal tier the table
itself, where a generated column leads to the parent table if there is one. -/
inductive Becomes (w : Workbook) (settings : Settings) (sheet : Sheet) : Bool → Schema → Prop
  /-- The bold tier becomes the parent table. -/
  | parent {p : Schema} {key : SchemaColumn}
    (hparent : parentSchema settings sheet (tierColumns sheet true []) = .ok (p, key)) :
    Becomes w settings sheet true p
  /-- The normal tier of a sheet without a bold tier becomes the table. -/
  | table {t : Schema} (hbold : sheet.tier true = [])
    (htable : tableSchema sheet [] (tierColumns sheet false (w.baseColumns sheet)) = .ok t) :
    Becomes w settings sheet false t
  /-- The normal tier becomes the table, and leads to the parent table. -/
  | linked {p t : Schema} {key link : SchemaColumn}
    (hparent : parentSchema settings sheet (tierColumns sheet true []) = .ok (p, key))
    (hlink : parentLink settings sheet key = .ok link)
    (htable : tableSchema sheet [link] (tierColumns sheet false (w.baseColumns sheet)) = .ok t) :
    Becomes w settings sheet false t

theorem tier_ne_nil_of_parentSchema {p : Schema × SchemaColumn}
    (h : parentSchema settings sheet (tierColumns sheet true []) = .ok p) :
    sheet.tier true ≠ [] := by
  intro hnil
  rw [tierColumns, hnil] at h
  cases h

namespace Becomes

theorem name (h : w.Becomes settings sheet bold t) :
    t.name = tierTable settings sheet.table bold := by
  cases h with
  | parent hparent => exact (fields_of_parentSchema hparent).1
  | table _ htable => exact (fields_of_tableSchema htable).1
  | linked _ _ htable => exact (fields_of_tableSchema htable).1

/-- The table of a normal tier inherits as its sheet says, and a parent table does not inherit. -/
theorem based (h : w.Becomes settings sheet bold t) :
    t.based = if bold then none else sheet.based := by
  cases h with
  | parent hparent => exact (fields_of_parentSchema hparent).2
  | table _ htable => exact (fields_of_tableSchema htable).2.1
  | linked _ _ htable => exact (fields_of_tableSchema htable).2.1

/-- A tier becomes one table only. -/
theorem unique {u : Schema} (h : w.Becomes settings sheet bold t)
    (h' : w.Becomes settings sheet bold u) : u = t := by
  cases h with
  | parent hparent =>
    cases h' with
    | parent hparent' => cases hparent.symm.trans hparent'; rfl
  | table hbold htable =>
    cases h' with
    | table _ htable' => cases htable.symm.trans htable'; rfl
    | linked hparent => exact absurd hbold (tier_ne_nil_of_parentSchema hparent)
  | linked hparent hlink htable =>
    cases h' with
    | table hbold => exact absurd hbold (tier_ne_nil_of_parentSchema hparent)
    | linked hparent' hlink' htable' =>
      cases hparent.symm.trans hparent'
      cases hlink.symm.trans hlink'
      cases htable.symm.trans htable'
      rfl

end Becomes

/-- The tables of a sheet are those that its tiers with columns become. -/
theorem becomes_of_resolveSheet {schemas : List Schema}
    (h : w.resolveSheet settings sheet = .ok schemas) :
    (∀ t ∈ schemas, ∃ bold, sheet.tier bold ≠ [] ∧ w.Becomes settings sheet bold t) ∧
      ∀ bold, sheet.tier bold ≠ [] → ∃ t ∈ schemas, w.Becomes settings sheet bold t := by
  obtain ⟨hfaults, parent, table, rfl, hparent, htable⟩ := resolveSheet_ok_iff.1 h
  have hbold {p : Schema × SchemaColumn} (hp : parent = some p) :
      sheet.tier true ≠ [] ∧ w.Becomes settings sheet true p.1 := by
    subst hp
    exact ⟨tier_ne_nil_of_parentSchema hparent, .parent hparent⟩
  have hnormal {t : Schema} (ht : table = some t) :
      sheet.tier false ≠ [] ∧ w.Becomes settings sheet false t := by
    subst ht
    obtain ⟨hne, link, hlink, htable⟩ := htable
    refine ⟨fun hnil => hne (by rw [tierColumns, hnil]; rfl), ?_⟩
    cases parent with
    | none =>
      cases hlink
      refine .table ?_ htable
      by_contra hbold
      exact tierColumns_ne_nil hfaults hbold [] hparent
    | some p =>
      rw [Option.toList_some, List.mapM_cons] at hlink
      obtain ⟨l, hl, hlink⟩ := Except.exists_of_bind_ok hlink
      cases hlink
      exact .linked hparent hl htable
  constructor
  · intro t ht
    rcases List.mem_append.1 ht with ht | ht
    · obtain ⟨p, hp, rfl⟩ := Option.map_eq_some_iff.1 (Option.mem_toList.1 ht)
      exact ⟨true, hbold hp⟩
    · exact ⟨false, hnormal (Option.mem_toList.1 ht)⟩
  · intro bold htier
    cases bold with
    | true =>
      cases parent with
      | none => exact absurd hparent (tierColumns_ne_nil hfaults htier [])
      | some p =>
        exact ⟨p.1, List.mem_append_left _ (List.mem_singleton.2 rfl), (hbold rfl).2⟩
    | false =>
      cases table with
      | none => exact absurd htable (tierColumns_ne_nil hfaults htier _)
      | some t =>
        exact ⟨t, List.mem_append_right _ (List.mem_singleton.2 rfl), (hnormal rfl).2⟩

/-! ### The tables of a workbook -/

/-- The first sheets of the tables. -/
def firsts (w : Workbook) : List Sheet :=
  w.sheets.filter fun sheet => w.sheetOf? sheet.table = some sheet

/-- The first sheet of a table belongs to it. -/
theorem table_of_sheetOf? {name : String} (h : w.sheetOf? name = some sheet) :
    sheet.table = name := by
  simpa using List.find?_some h

theorem mem_firsts : sheet ∈ w.firsts ↔ w.sheetOf? sheet.table = some sheet := by
  unfold firsts
  rw [List.mem_filter, decide_eq_true_eq]
  exact ⟨fun h => h.2, fun h => ⟨List.mem_of_find?_eq_some h, h⟩⟩

theorem mem_firsts_of_sheetOf? {name : String} (h : w.sheetOf? name = some sheet) :
    sheet ∈ w.firsts := by
  rw [mem_firsts, table_of_sheetOf? h]
  exact h

/-- Two first sheets of one table are the same. -/
theorem eq_of_mem_firsts {sheet' : Sheet} (h : sheet ∈ w.firsts) (h' : sheet' ∈ w.firsts)
    (htable : sheet'.table = sheet.table) : sheet' = sheet := by
  have hfirst := mem_firsts.1 h'
  rw [htable, mem_firsts.1 h] at hfirst
  cases hfirst
  rfl

/-- Every sheet belongs to a table with a first sheet. -/
theorem exists_first (h : sheet ∈ w.sheets) : ∃ first ∈ w.firsts, first.table = sheet.table := by
  have hsome : (w.sheetOf? sheet.table).isSome = true :=
    List.find?_isSome.2 ⟨sheet, h, beq_self_eq_true _⟩
  obtain ⟨first, hfirst⟩ := Option.isSome_iff_exists.1 hsome
  exact ⟨first, mem_firsts_of_sheetOf? hfirst, table_of_sheetOf? hfirst⟩

/-- The first sheet of a table is the first of its sheets. -/
theorem sheetOf?_eq_head? {e : String × List Sheet} (he : e ∈ w.tables.entries) :
    w.sheetOf? e.1 = e.2.head? := by
  rw [Keyed.eq_filter_of_mem_groupBy _ he, List.head?_filter]
  rfl

/-- The first sheets are those that tables are resolved from. -/
theorem exists_entry_of_first (h : sheet ∈ w.firsts) :
    ∃ others, (sheet.table, sheet :: others) ∈ w.tables.entries := by
  have hkey := (Keyed.mem_keys_groupBy Sheet.table).2
    (List.mem_map_of_mem (List.mem_of_mem_filter h))
  obtain ⟨⟨name, sheets⟩, he, hname⟩ := List.mem_map.1 hkey
  cases hname
  have hhead := sheetOf?_eq_head? he
  rw [mem_firsts.1 h] at hhead
  obtain ⟨others, rfl⟩ := List.head?_eq_some_iff.1 hhead.symm
  exact ⟨others, he⟩

variable {schemas : List Schema}

/-- If all tables are resolved, so is the first sheet of each of them. -/
theorem resolveSheet_of_resolve (h : w.resolve settings = .ok schemas)
    (hfirst : sheet ∈ w.firsts) :
    w.inheritanceConflicts sheet = [] ∧
      ∃ ts, w.resolveSheet settings sheet = .ok ts ∧ ∀ t ∈ ts, t ∈ schemas := by
  obtain ⟨others, he⟩ := exists_entry_of_first hfirst
  obtain ⟨ts, hts, hmem⟩ := resolveJob_of_resolve h he
  obtain ⟨hsheet, hconflicts, -⟩ := resolveSheet_of_resolveJob hts
  exact ⟨hconflicts, ts, hsheet, hmem⟩

/-- The sheets of a resolved table declare the same columns as the first of them. -/
theorem mergesWith_first (h : w.resolve settings = .ok schemas) (hsheet : sheet ∈ w.sheets)
    {first : Sheet} (hfirst : first ∈ w.firsts) (htable : first.table = sheet.table) :
    sheet = first ∨ sheet.mergesWith first = true := by
  obtain ⟨others, he⟩ := exists_entry_of_first hfirst
  obtain ⟨ts, hts, -⟩ := resolveJob_of_resolve h he
  obtain ⟨-, -, hmerge⟩ := resolveSheet_of_resolveJob hts
  have hgroup : first :: others = w.sheets.filter fun a => a.table = first.table :=
    Keyed.eq_filter_of_mem_groupBy _ he
  have hmem : sheet ∈ first :: others := by
    rw [hgroup, List.mem_filter]
    exact ⟨hsheet, by simp [htable]⟩
  exact (List.mem_cons.1 hmem).imp id (hmerge sheet)

/-- The first sheet of a resolved table has columns in the tiers in which another sheet has some. -/
theorem tier_ne_nil_of_first (h : w.resolve settings = .ok schemas) (hsheet : sheet ∈ w.sheets)
    {first : Sheet} (hfirst : first ∈ w.firsts) (htable : first.table = sheet.table)
    (htier : sheet.tier bold ≠ []) : first.tier bold ≠ [] := by
  rcases mergesWith_first h hsheet hfirst htable with rfl | hmerge
  · exact htier
  · exact Sheet.tier_ne_nil_of_mergesWith hmerge htier

/-- Every sheet of a resolved table has columns in the tiers in which the first one has some. -/
theorem tier_ne_nil_of_table (h : w.resolve settings = .ok schemas) (hsheet : sheet ∈ w.sheets)
    {first : Sheet} (hfirst : first ∈ w.firsts) (htable : first.table = sheet.table)
    (htier : first.tier bold ≠ []) : sheet.tier bold ≠ [] := by
  rcases mergesWith_first h hsheet hfirst htable with rfl | hmerge
  · exact htier
  · rw [Sheet.mergesWith_comm] at hmerge
    exact Sheet.tier_ne_nil_of_mergesWith hmerge htier

/-- The types of the first sheet of a resolved table have no fault. -/
theorem typeFaults_of_resolve (h : w.resolve settings = .ok schemas)
    (hfirst : sheet ∈ w.firsts) : typeFaults sheet = [] := by
  obtain ⟨-, ts, hts, -⟩ := resolveSheet_of_resolve h hfirst
  exact (resolveSheet_ok_iff.1 hts).1

/-- Every tier with columns becomes a table. -/
theorem exists_mem_of_first (h : w.resolve settings = .ok schemas)
    (hfirst : sheet ∈ w.firsts) (htier : sheet.tier bold ≠ []) :
    ∃ t ∈ schemas, w.Becomes settings sheet bold t := by
  obtain ⟨-, ts, hts, hmem⟩ := resolveSheet_of_resolve h hfirst
  obtain ⟨t, ht, hbecomes⟩ := (becomes_of_resolveSheet hts).2 bold htier
  exact ⟨t, hmem t ht, hbecomes⟩

/-- Every table is built from a tier of the first sheet of a table. -/
theorem exists_becomes_of_mem (h : w.resolve settings = .ok schemas) (ht : t ∈ schemas) :
    ∃ sheet ∈ w.firsts, ∃ bold, sheet.tier bold ≠ [] ∧
      w.Becomes settings sheet bold t := by
  obtain ⟨⟨name, sheets⟩, he, hout⟩ := Pool.exists_of_mem_run h ht
  obtain ⟨ts, hts, -⟩ := resolveJob_of_resolve h he
  change t ∈ (w.resolveJob settings (name, sheets)).outputs at hout
  rw [hts] at hout
  have hhead := sheetOf?_eq_head? he
  have hgroup := Keyed.eq_filter_of_mem_groupBy _ he
  cases sheets with
  | nil =>
    have hkey := (Keyed.mem_keys_groupBy Sheet.table).1 (List.mem_map_of_mem he)
    obtain ⟨sheet, hsheet, hname⟩ := List.mem_map.1 hkey
    have hnone := List.filter_eq_nil_iff.1 hgroup.symm sheet hsheet
    simp [hname] at hnone
  | cons sheet others =>
    obtain ⟨hsheet, -, -⟩ := resolveSheet_of_resolveJob hts
    obtain ⟨bold, htier, hbecomes⟩ := (becomes_of_resolveSheet hsheet).1 t hout
    exact ⟨sheet, mem_firsts_of_sheetOf? hhead, bold, htier, hbecomes⟩

/-- No other tier has the table of a tier. -/
def Undisplaced (w : Workbook) (settings : Settings) (table : String) (bold : Bool) : Prop :=
  ∀ sheet ∈ w.firsts, ∀ b, sheet.tier b ≠ [] →
    tierTable settings sheet.table b = tierTable settings table bold →
      sheet.table = table ∧ b = bold

instance (w : Workbook) (settings : Settings) (table : String) (bold : Bool) :
    Decidable (w.Undisplaced settings table bold) :=
  inferInstanceAs (Decidable (∀ _ ∈ _, ∀ _, _))

variable {s : Session}

theorem schemas_of_resolved (h : w.resolved settings = .ok s) :
    ∃ schemas, w.resolve settings = .ok schemas ∧
      s.schemas = schemas.foldl Schemas.declare .empty := by
  obtain ⟨schemas, hschemas, rfl⟩ := resolved_ok h
  refine ⟨schemas, hschemas, ?_⟩
  rw [foldl_withSchema]
  rfl

/-- Every table of a resolved workbook is built from a tier of the first sheet of a table. -/
theorem exists_becomes_of_find? (h : w.resolved settings = .ok s) {name : String}
    (ht : s.schemas.find? name = some t) :
    ∃ sheet ∈ w.firsts, ∃ bold, sheet.tier bold ≠ [] ∧
      w.Becomes settings sheet bold t ∧ tierTable settings sheet.table bold = name := by
  obtain ⟨schemas, hschemas, hs⟩ := schemas_of_resolved h
  rw [hs] at ht
  rcases Schemas.mem_of_find?_foldl_declare ht with ⟨hmem, hname⟩ | hnone
  · obtain ⟨sheet, hfirst, bold, htier, hbecomes⟩ := exists_becomes_of_mem hschemas hmem
    exact ⟨sheet, hfirst, bold, htier, hbecomes, hbecomes.name.symm.trans hname⟩
  · cases hnone

/-- **The table of an undisplaced tier is the one built from it.** -/
theorem find?_of_undisplaced (h : w.resolved settings = .ok s)
    (hfirst : sheet ∈ w.firsts) (htier : sheet.tier bold ≠ [])
    (halone : w.Undisplaced settings sheet.table bold) :
    ∃ t, s.schemas.find? (tierTable settings sheet.table bold) = some t ∧
      w.Becomes settings sheet bold t := by
  obtain ⟨schemas, hschemas, hs⟩ := schemas_of_resolved h
  obtain ⟨t, ht, hbecomes⟩ := exists_mem_of_first hschemas hfirst htier
  refine ⟨t, ?_, hbecomes⟩
  rw [hs, ← hbecomes.name]
  refine Schemas.find?_foldl_declare ht fun u hu hname => ?_
  obtain ⟨sheet', hfirst', bold', htier', hbecomes'⟩ := exists_becomes_of_mem hschemas hu
  rw [hbecomes'.name, hbecomes.name] at hname
  obtain ⟨htable, rfl⟩ := halone sheet' hfirst' bold' htier' hname
  cases eq_of_mem_firsts hfirst hfirst' htable
  exact hbecomes.unique hbecomes'

/-! ### The columns of a tier -/

/-- The columns of the parent table are those of the bold tier, the last of each name. -/
theorem Becomes.columns_parent (h : w.Becomes settings sheet true t) :
    t.columns =
      Keyed.ofList ((tierColumns sheet true []).map fun c => (c.name, c)) := by
  cases h with
  | parent hparent =>
    obtain ⟨-, rfl⟩ := parentSchema_ok_iff.1 hparent
    exact Schema.columns_foldl_push ..

theorem entries_tableSchema {link : List SchemaColumn} {columns : List SchemaColumn}
    (hlink : (link.map (·.name)).Nodup) (h : tableSchema sheet link columns = .ok t) :
    t.columns.entries = (link ++ columns).map fun c => (c.name, c) := by
  have ht := tableSchema_ok_iff.1 h
  have hnodup : ((link.map fun c => (c.name, c)).map Prod.fst).Nodup := by
    rw [List.map_map]
    exact hlink
  have hentries := entries_addColumns (congrArg Prod.snd ht)
  rw [ht, Schema.columns_foldl_push] at hentries
  rw [hentries, List.map_append]
  exact congrArg (· ++ _) (Keyed.entries_ofList_of_nodup hnodup)

/-- The columns of the table are those of the normal tier, and in front of them the generated column
if there is a bold tier. -/
theorem Becomes.entries_table (h : w.Becomes settings sheet false t) :
    ∃ link : List SchemaColumn,
      t.columns.entries = (link ++ tierColumns sheet false (w.baseColumns sheet)).map
        (fun c => (c.name, c)) ∧
      (sheet.tier true = [] → link = []) ∧
      (sheet.tier true ≠ [] → ∃ p key l,
        parentSchema settings sheet (tierColumns sheet true []) = .ok (p, key) ∧
          parentLink settings sheet key = .ok l ∧ link = [l]) := by
  cases h with
  | table hbold htable =>
    exact ⟨[], entries_tableSchema List.nodup_nil htable, fun _ => rfl, fun h => absurd hbold h⟩
  | @linked p _ key l hparent hlink htable =>
    refine ⟨[l], entries_tableSchema (List.pairwise_singleton _ _) htable, fun hbold => ?_,
      fun _ => ⟨p, key, l, hparent, hlink, rfl⟩⟩
    exact absurd hbold (tier_ne_nil_of_parentSchema hparent)

/-- The key of a parent table is a column of the bold tier, and a primary key. -/
theorem primary_of_parentSchema {columns : List SchemaColumn} {p : Schema × SchemaColumn}
    (h : parentSchema settings sheet columns = .ok p) :
    p.2 ∈ columns ∧ p.2.isPrimaryKey = true := by
  obtain ⟨hkey, -⟩ := parentSchema_ok_iff.1 h
  exact ⟨List.mem_of_find?_eq_some hkey, List.find?_some hkey⟩

/-- A column of the table of a tier is made from one of the tier, unless it is the generated one. -/
theorem Becomes.column_cases (h : w.Becomes settings sheet bold t) (htypes : typeFaults sheet = [])
    {c : SchemaColumn} (hc : c ∈ t.columns.values) :
    (∃ x ∈ sheet.tier bold, c.MadeFrom x) ∨
      bold = false ∧ sheet.tier true ≠ [] ∧ ∃ key, parentLink settings sheet key = .ok c := by
  have hmade {inherited : List String} (hc : c ∈ tierColumns sheet bold inherited) :
      ∃ x ∈ sheet.tier bold, c.MadeFrom x :=
    (forall₂_tierColumns htypes bold inherited).exists_of_mem_right hc
  obtain ⟨e, he, rfl⟩ := List.mem_map.1 hc
  cases bold with
  | true =>
    rw [h.columns_parent] at he
    have he := (Keyed.latest_sublist _ _).subset ((Keyed.entries_ofList_perm _).mem_iff.1 he)
    obtain ⟨c, hmem, rfl⟩ := List.mem_map.1 he
    exact .inl (hmade hmem)
  | false =>
    obtain ⟨link, hentries, hnone, hlink⟩ := h.entries_table
    rw [hentries] at he
    obtain ⟨c, hmem, rfl⟩ := List.mem_map.1 he
    rcases List.mem_append.1 hmem with hmem | hmem
    · by_cases hbold : sheet.tier true = []
      · rw [hnone hbold] at hmem
        cases hmem
      · obtain ⟨p, key, l, -, hl, rfl⟩ := hlink hbold
        cases List.mem_singleton.1 hmem
        exact .inr ⟨rfl, hbold, key, hl⟩
    · exact .inl (hmade hmem)

/-- The names of a tier are kept by its columns. -/
theorem map_name_tierColumns (h : typeFaults sheet = []) (bold : Bool) (inherited : List String) :
    (tierColumns sheet bold inherited).map (·.name) = (sheet.tier bold).map (·.name) :=
  ((forall₂_tierColumns h bold inherited).imp fun _ _ hc => hc.name.symm).map_eq.symm

/-- No name of a normal tier occurs twice. -/
theorem Becomes.nodup_names (h : w.Becomes settings sheet false t)
    (htypes : typeFaults sheet = []) : ((sheet.tier false).map (·.name)).Nodup := by
  obtain ⟨link, hentries, -⟩ := h.entries_table
  have hdistinct := t.columns.distinct
  rw [hentries, List.map_map, List.map_append] at hdistinct
  rw [← map_name_tierColumns htypes false (w.baseColumns sheet)]
  exact (List.nodup_append.1 hdistinct).2.1

/-- If no name of a tier occurs twice, the table of the tier has all columns of the tier. -/
theorem Becomes.find?_column (h : w.Becomes settings sheet bold t) (htypes : typeFaults sheet = [])
    (hnames : bold = true → ((sheet.tier true).map (·.name)).Nodup) {x : SheetColumn}
    (hx : x ∈ sheet.tier bold) : ∃ c, t.columns.find? x.name = some c ∧ c.MadeFrom x := by
  have hentry (inherited : List String)
      (hsub : ((tierColumns sheet bold inherited).map fun c => (c.name, c)) ⊆ t.columns.entries) :
      ∃ c, t.columns.find? x.name = some c ∧ c.MadeFrom x := by
    obtain ⟨c, hc, hmade⟩ := (forall₂_tierColumns htypes bold inherited).exists_of_mem_left hx
    refine ⟨c, ?_, hmade⟩
    rw [Keyed.find?_eq_some_iff, ← hmade.name]
    exact hsub (List.mem_map.2 ⟨c, hc, rfl⟩)
  cases bold with
  | true =>
    refine hentry [] ?_
    have hnodup : (((tierColumns sheet true []).map fun c => (c.name, c)).map Prod.fst).Nodup := by
      rw [List.map_map]
      exact (map_name_tierColumns htypes true []).symm ▸ hnames rfl
    rw [h.columns_parent, Keyed.entries_ofList_of_nodup hnodup]
    exact List.Subset.refl _
  | false =>
    obtain ⟨link, hentries, -⟩ := h.entries_table
    refine hentry (w.baseColumns sheet) ?_
    rw [hentries, List.map_append]
    exact List.subset_append_right _ _

/-- The generated column leads to the parent table, in the scope of its key. -/
theorem parentLink_ok {key l : SchemaColumn} (h : parentLink settings sheet key = .ok l) :
    l.name = settings.parentColumn ∧
      l.type = "($" ++ settings.parentTable sheet.table ++ ")" ∧ l.scope = key.scope := by
  unfold parentLink SchemaColumn.make at h
  dsimp only at h
  split at h
  · cases h
    exact ⟨rfl, rfl, rfl⟩
  · cases h

/-- **The table of an undisplaced normal tier has a generated column**, if the sheet has a bold
tier: one that leads to the parent table. -/
theorem exists_link_of_undisplaced (hs : w.resolved settings = .ok s) (hsheet : sheet ∈ w.sheets)
    (hbold : sheet.hasBold = true) (hnormal : sheet.tier false ≠ [])
    (halone : w.Undisplaced settings sheet.table false) :
    ∃ t l, s.schemas.find? sheet.table = some t ∧ l ∈ t.columns.values ∧
      l.name = settings.parentColumn ∧
        l.type = "($" ++ settings.parentTable sheet.table ++ ")" := by
  obtain ⟨schemas, hschemas, -⟩ := schemas_of_resolved hs
  obtain ⟨first, hfirst, htable⟩ := exists_first hsheet
  rw [← htable] at halone
  obtain ⟨t, ht, hbecomes⟩ := find?_of_undisplaced hs hfirst
    (tier_ne_nil_of_first hschemas hsheet hfirst htable hnormal) halone
  obtain ⟨link, hentries, -, hlink⟩ := hbecomes.entries_table
  obtain ⟨p, key, l, -, hl, rfl⟩ := hlink
    (tier_ne_nil_of_first hschemas hsheet hfirst htable (Sheet.tier_ne_nil_of_hasBold hbold))
  have hmem : l ∈ t.columns.values :=
    List.mem_map.2 ⟨(l.name, l), hentries ▸ List.mem_cons_self .., rfl⟩
  obtain ⟨hname, htype, -⟩ := parentLink_ok hl
  exact ⟨t, l, htable ▸ ht, hmem, hname, htable ▸ htype⟩

end Workbook

end TypedSheets
