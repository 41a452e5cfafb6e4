import TypedSheets.Compilation
import TypedSheets.Proofs.Keyed
import TypedSheets.Proofs.Pool

/-!
# Resolved workbooks

What the session of a resolved workbook knows: its tables and their columns are entered under their
names, and its constants are those of the workbook.

## Main definitions

* `Schema.Named`, `Schemas.Named` — columns and tables are entered under their names.
* `Explained` — what is no result has diagnostics.
* `Workbook.BoldBecomes`, `Workbook.NormalBecomes` — what the tiers of a sheet become.
* `Workbook.resolveBold`, `Workbook.resolveNormal` — the two steps of resolving a sheet.

## Main results

* `Workbook.parentSchema_ok_iff`, `Workbook.tableSchema_ok_iff` — the table of a tier.
* `Workbook.resolveSheet_ok_iff` — the tables that a sheet is resolved to.
* `Workbook.named_of_resolve` — the tables of a resolved workbook have named columns.
* `Workbook.resolved_named`, `Workbook.resolved_consts` — the session of a resolved workbook.
* `Workbook.resolveJob_full` — a table that cannot be resolved has diagnostics.
-/

namespace TypedSheets

/-- The columns of a table are entered under their names. -/
def Schema.Named (t : Schema) : Prop :=
  ∀ e ∈ t.columns.entries, e.1 = e.2.name

/-- The tables are entered under their names, and so are their columns. -/
structure Schemas.Named (ss : Schemas) : Prop where
  /-- Tables. -/
  table (e : String × Schema) (he : e ∈ ss.entries) : e.1 = e.2.name
  /-- Columns. -/
  columns (t : Schema) (ht : t ∈ ss.values) : t.Named

namespace Schema

variable {t : Schema}

theorem Named.of_empty (h : t.columns = .empty) : t.Named := by
  intro e he
  rw [h] at he
  cases he

theorem Named.push (h : t.Named) (c : SchemaColumn) : (t.push c).Named := by
  intro e he
  rcases Keyed.mem_entries_insert he with rfl | he
  · rfl
  · exact h e he

theorem Named.foldl_push (h : t.Named) (cs : List SchemaColumn) :
    (cs.foldl Schema.push t).Named := by
  induction cs generalizing t with
  | nil => exact h
  | cons c cs ih => exact ih (h.push c)

/-- The names of the columns are the keys. -/
theorem Named.keys_eq (h : t.Named) : t.columns.keys = t.columns.values.map (·.name) := by
  unfold Keyed.keys Keyed.values
  rw [List.map_map]
  exact List.map_congr_left h

/-- A column is found under its name. -/
theorem Named.find?_name (h : t.Named) {c : SchemaColumn} (hc : c ∈ t.columns.values) :
    t.columns.find? c.name = some c := by
  obtain ⟨e, he, rfl⟩ := List.mem_map.1 hc
  rw [Keyed.find?_eq_some_iff, ← h e he]
  exact he

end Schema

/-- Columns that are pushed change nothing else. -/
theorem Schema.foldl_push_eq (t : Schema) (cs : List SchemaColumn) :
    cs.foldl Schema.push t = { t with columns := (cs.foldl Schema.push t).columns } := by
  induction cs generalizing t with
  | nil => rfl
  | cons c cs ih => exact ih (t.push c)

/-- Columns that are added change nothing else. -/
theorem addColumns_eq (t : Schema) (cs : List SchemaColumn) :
    (addColumns t cs).1 = { t with columns := (addColumns t cs).1.columns } := by
  induction cs generalizing t with
  | nil => rfl
  | cons c cs ih =>
    unfold addColumns
    split
    · exact ih t
    · exact ih (t.push c)

theorem addColumns_named {t : Schema} (h : t.Named) (cs : List SchemaColumn) :
    (addColumns t cs).1.Named := by
  induction cs generalizing t with
  | nil => exact h
  | cons c cs ih =>
    unfold addColumns
    split
    · exact ih h
    · exact ih (h.push c)

namespace Schemas.Named

variable {ss : Schemas}

/-- A table is found under its name. -/
theorem find?_name (h : ss.Named) {t : Schema} (ht : t ∈ ss.values) : ss.find? t.name = some t := by
  obtain ⟨e, he, rfl⟩ := List.mem_map.1 ht
  rw [Keyed.find?_eq_some_iff, ← h.table e he]
  exact he

theorem name_eq (h : ss.Named) {name : String} {t : Schema} (ht : ss.find? name = some t) :
    t.name = name :=
  (h.table _ (Keyed.mem_of_find? ht)).symm

theorem declare (h : ss.Named) {t : Schema} (ht : t.Named) : (ss.declare t).Named := by
  refine ⟨fun e he => ?_, fun u hu => ?_⟩
  · rcases Keyed.mem_entries_insert he with rfl | he
    · rfl
    · exact h.table e he
  · obtain ⟨e, he, rfl⟩ := List.mem_map.1 hu
    rcases Keyed.mem_entries_insert he with rfl | he
    · exact ht
    · exact h.columns _ (List.mem_map.2 ⟨e, he, rfl⟩)

end Schemas.Named

/-- Unless there is a result, there are diagnostics. -/
abbrev Explained {α : Type} (x : Except (List Diagnostic) α) : Prop :=
  x.ErrorsIn (· ≠ [])

/-! ### Resolving -/

namespace Workbook

variable {w : Workbook} {settings : Settings}

/-- A parent table has the columns of the bold tier, and its key is the first primary key there. -/
theorem parentSchema_ok_iff {sheet : Sheet} {cs : List SchemaColumn} {p : Schema × SchemaColumn} :
    parentSchema settings sheet cs = .ok p ↔
      cs.find? (·.isPrimaryKey) = some p.2 ∧
        cs.foldl Schema.push
          { name := settings.parentTable sheet.table, based := none,
            group := settings.parentTable sheet.table } = p.1 := by
  unfold parentSchema
  dsimp only
  cases cs.find? (·.isPrimaryKey) with
  | none => exact iff_of_false nofun nofun
  | some key =>
    rw [Except.ok.injEq, Option.some.injEq, Prod.ext_iff, and_comm]

/-- The table of a normal tier has its columns behind those that lead elsewhere, if no name is taken.
-/
theorem tableSchema_ok_iff {sheet : Sheet} {link cs : List SchemaColumn} {t : Schema} :
    tableSchema sheet link cs = .ok t ↔
      addColumns (link.foldl Schema.push
        { name := sheet.table, based := sheet.based, group := sheet.group.getD sheet.table }) cs =
        (t, []) := by
  unfold tableSchema
  dsimp only
  rw [Prod.ext_iff]
  split
  · rename_i hfree
    rw [Except.ok.injEq, and_iff_left (List.isEmpty_iff.1 hfree)]
  · rename_i htaken
    exact iff_of_false nofun fun h => htaken (List.isEmpty_iff.2 h.2)

theorem parentSchema_named {sheet : Sheet} {cs : List SchemaColumn} {p : Schema × SchemaColumn}
    (h : parentSchema settings sheet cs = .ok p) : p.1.Named := by
  obtain ⟨-, hp⟩ := parentSchema_ok_iff.1 h
  rw [← hp]
  exact .foldl_push (.of_empty rfl) cs

theorem tableSchema_named {sheet : Sheet} {link cs : List SchemaColumn} {t : Schema}
    (h : tableSchema sheet link cs = .ok t) : t.Named := by
  have ht : _ = t := congrArg Prod.fst (tableSchema_ok_iff.1 h)
  rw [← ht]
  exact addColumns_named (.foldl_push (.of_empty rfl) link) cs

/-- The name and the base of a parent table. -/
theorem fields_of_parentSchema {sheet : Sheet} {cs : List SchemaColumn} {p : Schema × SchemaColumn}
    (h : parentSchema settings sheet cs = .ok p) :
    p.1.name = settings.parentTable sheet.table ∧ p.1.based = none := by
  obtain ⟨-, hp⟩ := parentSchema_ok_iff.1 h
  rw [← hp, Schema.foldl_push_eq]
  exact ⟨rfl, rfl⟩

/-- The table of a normal tier inherits and is emitted as its sheet says. -/
theorem fields_of_tableSchema {sheet : Sheet} {link cs : List SchemaColumn} {t : Schema}
    (h : tableSchema sheet link cs = .ok t) :
    t.name = sheet.table ∧ t.based = sheet.based ∧ t.group = sheet.group.getD sheet.table := by
  have ht : _ = t := congrArg Prod.fst (tableSchema_ok_iff.1 h)
  rw [← ht, addColumns_eq, Schema.foldl_push_eq]
  exact ⟨rfl, rfl, rfl⟩

/-- What the bold tier of a sheet becomes, if it has columns: the parent table, and its key. -/
def BoldBecomes (settings : Settings) (sheet : Sheet) : Option (Schema × SchemaColumn) → Prop
  | none => tierColumns sheet true [] = []
  | some p => parentSchema settings sheet (tierColumns sheet true []) = .ok p

/-- What the normal tier of a sheet becomes, if it has columns: the table itself, with a column that
leads to the parent table if there is one. -/
def NormalBecomes (w : Workbook) (settings : Settings) (sheet : Sheet)
    (parent : Option (Schema × SchemaColumn)) : Option Schema → Prop
  | none => tierColumns sheet false (w.baseColumns sheet) = []
  | some t => tierColumns sheet false (w.baseColumns sheet) ≠ [] ∧
      ∃ link, parent.toList.mapM (fun p => parentLink settings sheet p.2) = .ok link ∧
        tableSchema sheet link (tierColumns sheet false (w.baseColumns sheet)) = .ok t

/-- The bold tier of a sheet, resolved. -/
def resolveBold (settings : Settings) (sheet : Sheet) :
    Except (List Diagnostic) (Option (Schema × SchemaColumn)) :=
  if (tierColumns sheet true []).isEmpty then .ok none
  else some <$> parentSchema settings sheet (tierColumns sheet true [])

/-- The normal tier of a sheet, resolved behind its parent table, if there is one. -/
def resolveNormal (w : Workbook) (settings : Settings) (sheet : Sheet)
    (parent : Option (Schema × SchemaColumn)) : Except (List Diagnostic) (Option Schema) :=
  if (tierColumns sheet false (w.baseColumns sheet)).isEmpty then .ok none
  else do
    let link ← parent.toList.mapM fun p => parentLink settings sheet p.2
    some <$> tableSchema sheet link (tierColumns sheet false (w.baseColumns sheet))

/-- A sheet is resolved tier by tier. -/
theorem resolveSheet_eq (sheet : Sheet) : w.resolveSheet settings sheet =
    if !(typeFaults sheet).isEmpty then .error (typeFaults sheet)
    else do
      let parent ← resolveBold settings sheet
      let table ← w.resolveNormal settings sheet parent
      return (parent.map Prod.fst).toList ++ table.toList := by
  unfold resolveSheet resolveBold resolveNormal
  dsimp only
  split
  · rfl
  · split
    · split <;> rfl
    · refine bind_congr fun parent => ?_
      split
      · rfl
      · rw [bind_assoc]

theorem resolveBold_ok_iff {sheet : Sheet} {parent : Option (Schema × SchemaColumn)} :
    resolveBold settings sheet = .ok parent ↔ BoldBecomes settings sheet parent := by
  unfold resolveBold
  constructor
  · intro h
    split at h
    · rename_i hbold
      cases h
      exact List.isEmpty_iff.1 hbold
    · obtain ⟨p, hp, rfl⟩ := Except.exists_of_map_ok h
      exact hp
  · intro h
    cases parent with
    | none => exact if_pos (List.isEmpty_iff.2 h)
    | some p =>
      have hp : parentSchema settings sheet (tierColumns sheet true []) = .ok p := h
      have hne : tierColumns sheet true [] ≠ [] := by
        intro hnil
        rw [hnil] at hp
        cases hp
      rw [if_neg (mt List.isEmpty_iff.1 hne), hp]
      rfl

theorem resolveNormal_ok_iff {sheet : Sheet} {parent : Option (Schema × SchemaColumn)}
    {table : Option Schema} :
    w.resolveNormal settings sheet parent = .ok table ↔
      w.NormalBecomes settings sheet parent table := by
  unfold resolveNormal
  constructor
  · intro h
    split at h
    · rename_i hnormal
      cases h
      exact List.isEmpty_iff.1 hnormal
    · rename_i hnormal
      obtain ⟨link, hlink, h⟩ := Except.exists_of_bind_ok h
      obtain ⟨t, htable, rfl⟩ := Except.exists_of_map_ok h
      exact ⟨mt List.isEmpty_iff.2 hnormal, link, hlink, htable⟩
  · intro h
    cases table with
    | none => exact if_pos (List.isEmpty_iff.2 h)
    | some t =>
      obtain ⟨hne, link, hlink, htable⟩ := h
      rw [if_neg (mt List.isEmpty_iff.1 hne), hlink]
      show some <$> tableSchema sheet link _ = _
      rw [htable]
      rfl

/-- **The tables that a sheet is resolved to**: a parent table if there are bold columns, and a table
if there are normal ones, with a column that leads to the parent table if there is one. -/
theorem resolveSheet_ok_iff {sheet : Sheet} {schemas : List Schema} :
    w.resolveSheet settings sheet = .ok schemas ↔
      typeFaults sheet = [] ∧ ∃ (parent : Option (Schema × SchemaColumn)) (table : Option Schema),
        schemas = (parent.map Prod.fst).toList ++ table.toList ∧
          BoldBecomes settings sheet parent ∧ w.NormalBecomes settings sheet parent table := by
  rw [resolveSheet_eq]
  constructor
  · intro h
    split at h
    · cases h
    · rename_i hfaults
      obtain ⟨parent, hparent, h⟩ := Except.exists_of_bind_ok h
      obtain ⟨table, htable, h⟩ := Except.exists_of_bind_ok h
      cases h
      exact ⟨by simpa using hfaults, parent, table, rfl, resolveBold_ok_iff.1 hparent,
        resolveNormal_ok_iff.1 htable⟩
  · rintro ⟨hfaults, parent, table, rfl, hparent, htable⟩
    rw [hfaults, if_neg (by decide), resolveBold_ok_iff.2 hparent]
    show (w.resolveNormal settings sheet parent >>= _) = _
    rw [resolveNormal_ok_iff.2 htable]
    rfl

/-- The tables that a sheet is resolved to have named columns. -/
theorem named_of_resolveSheet {sheet : Sheet} {schemas : List Schema}
    (h : w.resolveSheet settings sheet = .ok schemas) : ∀ t ∈ schemas, t.Named := by
  obtain ⟨-, parent, table, rfl, hparent, htable⟩ := resolveSheet_ok_iff.1 h
  intro t ht
  rcases List.mem_append.1 ht with ht | ht
  · obtain ⟨p, rfl, rfl⟩ := Option.map_eq_some_iff.1 (Option.mem_toList.1 ht)
    exact parentSchema_named hparent
  · cases Option.mem_toList.1 ht
    obtain ⟨-, link, -, htable⟩ := htable
    exact tableSchema_named htable

/-- The tables of a resolved workbook have named columns. -/
theorem named_of_resolve {schemas : List Schema} (h : w.resolve settings = .ok schemas) :
    ∀ t ∈ schemas, t.Named := by
  intro t ht
  obtain ⟨table, -, hout⟩ := Pool.exists_of_mem_run h ht
  change t ∈ (w.resolveJob settings table).outputs at hout
  unfold resolveJob at hout
  dsimp only at hout
  split at hout
  · cases hout
  · split at hout
    · rename_i ts hts
      unfold resolveTable at hts
      split at hts
      · cases hts
        cases hout
      · exact named_of_resolveSheet hts t hout
    · cases hout

theorem foldl_withSchema_named {s : Session} (hs : s.schemas.Named) {schemas : List Schema}
    (h : ∀ t ∈ schemas, t.Named) : (schemas.foldl Session.withSchema s).schemas.Named := by
  induction schemas generalizing s with
  | nil => exact hs
  | cons t ts ih =>
    refine ih (Schemas.Named.declare hs (h t (List.mem_cons_self ..))) ?_
    exact fun t' ht' => h t' (List.mem_cons_of_mem t ht')

/-- Adding tables changes nothing but the tables. -/
theorem foldl_withSchema (s : Session) (schemas : List Schema) :
    schemas.foldl Session.withSchema s =
      { s with defs := { s.defs with schemas := schemas.foldl Schemas.declare s.schemas } } := by
  induction schemas generalizing s with
  | nil => rfl
  | cons t ts ih => exact ih (s.withSchema t)

/-- The session of a resolved workbook is that of the workbook with the resolved tables. -/
theorem resolved_ok {s : Session} (h : w.resolved settings = .ok s) :
    ∃ schemas, w.resolve settings = .ok schemas ∧
      s = schemas.foldl Session.withSchema (Session.ofWorkbook settings w) := by
  unfold resolved at h
  obtain ⟨schemas, hschemas, h⟩ := Except.exists_of_bind_ok h
  dsimp only at h
  split at h
  · cases h
    exact ⟨schemas, hschemas, rfl⟩
  · cases h

variable {s : Session}

/-- The tables and columns of a resolved workbook are entered under their names. -/
theorem resolved_named (h : w.resolved settings = .ok s) : s.schemas.Named := by
  obtain ⟨schemas, hschemas, rfl⟩ := resolved_ok h
  refine foldl_withSchema_named ⟨fun e he => ?_, fun t ht => ?_⟩ (named_of_resolve hschemas)
  · cases he
  · cases ht

theorem resolved_consts (h : w.resolved settings = .ok s) :
    s.defs.consts = Constants.ofList w.consts := by
  obtain ⟨schemas, -, rfl⟩ := resolved_ok h
  rw [foldl_withSchema]
  rfl

theorem resolved_settings (h : w.resolved settings = .ok s) : s.settings = settings := by
  obtain ⟨schemas, -, rfl⟩ := resolved_ok h
  rw [foldl_withSchema]
  rfl

/-! ### Failures -/

theorem explained_parentSchema (sheet : Sheet) (cs : List SchemaColumn) :
    Explained (parentSchema settings sheet cs) := by
  unfold parentSchema
  dsimp only
  split
  · exact .ok _
  · exact .error (List.cons_ne_nil _ _)

theorem explained_parentLink (sheet : Sheet) (key : SchemaColumn) :
    Explained (parentLink settings sheet key) := by
  unfold parentLink
  dsimp only
  generalize SchemaColumn.make _ _ _ _ = column
  cases column with
  | ok c => exact .ok c
  | error f => exact .error (List.cons_ne_nil _ _)

theorem explained_tableSchema (sheet : Sheet) (link cs : List SchemaColumn) :
    Explained (tableSchema sheet link cs) := by
  unfold tableSchema
  dsimp only
  split
  · exact .ok _
  · rename_i htaken
    intro ds h
    cases h
    simpa using htaken

theorem explained_resolveBold (sheet : Sheet) : Explained (resolveBold settings sheet) := by
  unfold resolveBold
  split
  · exact .ok none
  · exact .map (explained_parentSchema sheet _)

theorem explained_resolveNormal (sheet : Sheet) (parent : Option (Schema × SchemaColumn)) :
    Explained (w.resolveNormal settings sheet parent) := by
  unfold resolveNormal
  split
  · exact .ok none
  · refine .bind (.mapM (fun p => ?_) _) fun link => .map ?_
    · exact explained_parentLink sheet p.2
    · exact explained_tableSchema sheet link _

/-- A sheet that cannot be resolved has diagnostics. -/
theorem explained_resolveSheet (sheet : Sheet) : Explained (w.resolveSheet settings sheet) := by
  rw [resolveSheet_eq]
  split
  · rename_i hfaults
    refine .error ?_
    simpa using hfaults
  · refine .bind (explained_resolveBold sheet) fun parent => ?_
    exact .bind (explained_resolveNormal sheet parent) fun table => .ok _

/-- A table that cannot be resolved has diagnostics. -/
theorem resolveJob_full {table : String × List Sheet} :
    w.resolveJob settings table ≠ .rejected [] := by
  unfold resolveJob
  dsimp only
  split
  · rename_i hfaults
    intro h
    rw [Outcome.rejected.injEq] at h
    simp [h] at hfaults
  · split
    · exact nofun
    · rename_i faults hfaults
      intro h
      rw [Outcome.rejected.injEq] at h
      unfold resolveTable at hfaults
      split at hfaults
      · cases hfaults
      · exact explained_resolveSheet _ _ hfaults h

end Workbook

end TypedSheets
