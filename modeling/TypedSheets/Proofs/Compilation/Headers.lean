import TypedSheets.Proofs.Compilation.Tiers

/-!
# What resolution reads of a sheet

A sheet is resolved by what its columns declare, its headers. The cells play no part, nor does the
place of the sheet. The table of the normal tier also takes its base table and its output group from
the sheet, and marks the columns that the base table has as well.

## Main definitions

* `Sheet.headers` — what the columns of a sheet declare.

## Main results

* `Workbook.resolveSheet_congr` — what resolution reads of a sheet and its workbook.
* `Workbook.exists_resolveSheet_congr` — whether a sheet is resolved at all.
* `Workbook.exists_last_of_resolveSheet` — the base table and output group of the normal tier.
-/

namespace TypedSheets

/-! ### Headers -/

/-- What a column declares: all but its cells. -/
def SheetColumn.header (c : SheetColumn) : String × String × Scope × Bool :=
  (c.name, c.type, c.scope, c.bold)

/-- What the columns of a sheet declare, in order. -/
def Sheet.headers (s : Sheet) : List (String × String × Scope × Bool) :=
  s.columns.map SheetColumn.header

namespace Workbook

variable {w w' : Workbook} {settings : Settings} {a b : Sheet}

/-! ### What resolution reads -/

/-- The tier of a sheet, as its headers say. -/
theorem map_header_tier (a : Sheet) (bold : Bool) :
    (a.tier bold).map SheetColumn.header = a.headers.filter (·.2.2.2 == bold) := by
  rw [Sheet.tier, Sheet.headers, List.filter_map]
  rfl

theorem tier_eq_nil_congr (h : a.headers = b.headers) (bold : Bool) :
    a.tier bold = [] ↔ b.tier bold = [] := by
  rw [← List.map_eq_nil_iff (f := SheetColumn.header), map_header_tier, h, ← map_header_tier,
    List.map_eq_nil_iff]

theorem tierColumns_congr (h : a.headers = b.headers) (bold : Bool) (inherited : List String) :
    tierColumns a bold inherited = tierColumns b bold inherited := by
  have hheaders (a : Sheet) : tierColumns a bold inherited =
      ((a.tier bold).map SheetColumn.header).filterMap fun x =>
        (SchemaColumn.make x.1 x.2.1 x.2.2.1 (inherited.contains x.1)).toOption := by
    rw [List.filterMap_map]
    rfl
  rw [hheaders, hheaders, map_header_tier, map_header_tier, h]

/-- The names of the columns of every base table are all that is read of it. -/
theorem baseColumns_congr (h : ∀ base, (w.sheetOf? base).map (fun s => s.columns.map (·.name)) =
      (w'.sheetOf? base).map fun s => s.columns.map (·.name)) (a : Sheet) :
    w.baseColumns a = w'.baseColumns a := by
  have hmap (w : Workbook) : w.baseColumns a =
      ((a.based.bind w.sheetOf?).map fun s => s.columns.map (·.name)).getD [] := by
    rw [baseColumns]
    cases a.based.bind w.sheetOf? <;> rfl
  rw [hmap, hmap, Option.map_bind, Option.map_bind]
  exact congrArg (Option.getD · []) (congrArg (Option.bind _) (funext h))

theorem typeFaults_eq_nil_congr (h : a.headers = b.headers) :
    typeFaults a = [] ↔ typeFaults b = [] := by
  have hheaders (a : Sheet) : typeFaults a = [] ↔
      ∀ x ∈ a.headers, ∃ e, TypeExpr.parse x.2.1 = .ok e := by
    rw [typeFaults, List.filterMap_eq_nil_iff, Sheet.headers, List.forall_mem_map]
    refine forall₂_congr fun c _ => ?_
    show _ ↔ ∃ e, TypeExpr.parse c.type = .ok e
    cases TypeExpr.parse c.type <;> simp
  rw [hheaders, hheaders, h]

theorem parentSchema_congr (h : a.table = b.table) {columns : List SchemaColumn}
    {p : Schema × SchemaColumn} (hp : parentSchema settings a columns = .ok p) :
    parentSchema settings b columns = .ok p := by
  rw [parentSchema_ok_iff] at hp ⊢
  rwa [← h]

theorem parentLink_congr (h : a.table = b.table) {key link : SchemaColumn}
    (hl : parentLink settings a key = .ok link) : parentLink settings b key = .ok link := by
  unfold parentLink at hl ⊢
  rw [← h]
  dsimp only at hl ⊢
  generalize SchemaColumn.make _ _ _ _ = made at hl ⊢
  cases made with
  | ok column => exact hl
  | error f => cases hl

theorem tableSchema_congr (h : a.table = b.table) (hbased : a.based = b.based)
    (hgroup : a.group.getD a.table = b.group.getD b.table) {link columns : List SchemaColumn}
    {t : Schema} (ht : tableSchema a link columns = .ok t) :
    tableSchema b link columns = .ok t := by
  rw [tableSchema_ok_iff] at ht ⊢
  rwa [← hgroup, ← h, ← hbased]

/-- Whether a name is taken depends on the names only. -/
theorem addColumns_congr {s t : Schema} (h : ∀ name, name ∈ s.columns.keys ↔ name ∈ t.columns.keys)
    {cs ds : List SchemaColumn} (hnames : cs.map (·.name) = ds.map (·.name))
    (hfree : (addColumns s cs).2 = []) : (addColumns t ds).2 = [] := by
  induction cs generalizing s t ds with
  | nil =>
    rw [List.map_nil, eq_comm, List.map_eq_nil_iff] at hnames
    rw [hnames]
    rfl
  | cons c cs ih =>
    cases ds with
    | nil => cases hnames
    | cons d ds =>
      obtain ⟨hname, hnames⟩ : c.name = d.name ∧ cs.map (·.name) = ds.map (·.name) :=
        List.cons.inj hnames
      unfold addColumns at hfree ⊢
      split at hfree
      · cases hfree
      · rename_i hnew
        rw [Keyed.contains, Keyed.isSome_find?_iff, h, hname] at hnew
        rw [Keyed.contains, if_neg (mt Keyed.isSome_find?_iff.1 hnew)]
        refine ih (fun name => ?_) hnames hfree
        rw [Schema.push, Schema.push, Keyed.mem_keys_insert, Keyed.mem_keys_insert, h, hname]

/-- A normal tier with the same names becomes a table as well. -/
theorem exists_tableSchema_congr {link columns columns' : List SchemaColumn}
    (hnames : columns.map (·.name) = columns'.map (·.name)) {t : Schema}
    (h : tableSchema a link columns = .ok t) : ∃ t', tableSchema b link columns' = .ok t' := by
  refine ⟨_, tableSchema_ok_iff.2 (Prod.ext rfl ?_)⟩
  refine addColumns_congr (fun name => ?_) hnames (congrArg Prod.snd (tableSchema_ok_iff.1 h))
  rw [Schema.columns_foldl_push, Schema.columns_foldl_push]

/-- Two sheets of one table with the same headers have the same parent table. -/
theorem boldBecomes_congr (htable : a.table = b.table) (hheaders : a.headers = b.headers)
    {parent : Option (Schema × SchemaColumn)} (h : BoldBecomes settings a parent) :
    BoldBecomes settings b parent := by
  cases parent with
  | none => exact (tierColumns_congr hheaders true []).symm.trans h
  | some p =>
    rw [BoldBecomes, ← tierColumns_congr hheaders]
    exact parentSchema_congr htable h

/-- Two sheets of one table with the same headers are resolved to the same parent table, and to
tables that are related if normal tiers become related tables. -/
theorem resolveSheet_rel (htable : a.table = b.table) (hheaders : a.headers = b.headers)
    {R : Schema → Schema → Prop}
    (hown : typeFaults b = [] → a.tier false ≠ [] → ∀ link t,
      tableSchema a link (tierColumns a false (w.baseColumns a)) = .ok t →
      ∃ t', tableSchema b link (tierColumns b false (w'.baseColumns b)) = .ok t' ∧ R t t')
    {schemas : List Schema} (h : w.resolveSheet settings a = .ok schemas) :
    ∃ (parent : List Schema) (t t' : Option Schema), schemas = parent ++ t.toList ∧
      w'.resolveSheet settings b = .ok (parent ++ t'.toList) ∧ Option.Rel R t t' := by
  obtain ⟨hfaults, parent, t, rfl, hparent, hnormal⟩ := resolveSheet_ok_iff.1 h
  have hfaults' := (typeFaults_eq_nil_congr hheaders).1 hfaults
  have hparent' := boldBecomes_congr htable hheaders hparent
  have htier : a.tier false = [] ↔ b.tier false = [] := tier_eq_nil_congr hheaders false
  cases t with
  | none =>
    have hnil : a.tier false = [] := by_contra fun hne => tierColumns_ne_nil hfaults hne _ hnormal
    have hnormal' : w'.NormalBecomes settings b parent none := by
      rw [NormalBecomes, tierColumns, htier.1 hnil]
      rfl
    exact ⟨_, none, none, rfl,
      resolveSheet_ok_iff.2 ⟨hfaults', parent, none, rfl, hparent', hnormal'⟩, .none⟩
  | some t =>
    obtain ⟨hne, link, hlink, hschema⟩ := hnormal
    have hne : a.tier false ≠ [] := fun hnil => hne (by rw [tierColumns, hnil]; rfl)
    obtain ⟨t', hschema', hrel⟩ := hown hfaults' hne link t hschema
    have hlink' : parent.toList.mapM (fun p => parentLink settings b p.2) = .ok link := by
      cases parent with
      | none =>
        rw [Option.toList_none, List.mapM_nil] at hlink ⊢
        exact hlink
      | some p =>
        rw [Option.toList_some, List.mapM_cons] at hlink ⊢
        obtain ⟨l, hl, hlink⟩ := Except.exists_of_bind_ok hlink
        rw [parentLink_congr htable hl]
        exact hlink
    have hnormal' : w'.NormalBecomes settings b parent (some t') :=
      ⟨tierColumns_ne_nil hfaults' (mt htier.2 hne) _, link, hlink', hschema'⟩
    exact ⟨_, some t, some t', rfl,
      resolveSheet_ok_iff.2 ⟨hfaults', parent, some t', rfl, hparent', hnormal'⟩, .some hrel⟩

/-- **What resolution reads of a sheet**: its table and headers, and if there is a normal tier, its
base table with the columns of that, and its output group. -/
theorem resolveSheet_congr (htable : a.table = b.table) (hheaders : a.headers = b.headers)
    (hnormal : a.tier false ≠ [] → a.based = b.based ∧
      a.group.getD a.table = b.group.getD b.table ∧ w.baseColumns a = w'.baseColumns b)
    {schemas : List Schema} (h : w.resolveSheet settings a = .ok schemas) :
    w'.resolveSheet settings b = .ok schemas := by
  obtain ⟨parent, t, t', rfl, hb, hrel⟩ := resolveSheet_rel (R := Eq) htable hheaders
    (fun _ hne link t ht => by
      obtain ⟨hbased, hgroup, hbase⟩ := hnormal hne
      rw [← hbase, ← tierColumns_congr hheaders]
      exact ⟨t, tableSchema_congr htable hbased hgroup ht, rfl⟩) h
  cases hrel with
  | none => exact hb
  | some heq => exact heq ▸ hb

/-- Whether a sheet is resolved depends on its table and headers only. -/
theorem exists_resolveSheet_congr (htable : a.table = b.table) (hheaders : a.headers = b.headers)
    {schemas : List Schema} (h : w.resolveSheet settings a = .ok schemas) :
    ∃ schemas', w'.resolveSheet settings b = .ok schemas' := by
  have hfaults := (resolveSheet_ok_iff.1 h).1
  obtain ⟨parent, t, t', rfl, hb, -⟩ := resolveSheet_rel (R := fun _ _ => True) htable hheaders
    (fun hfaults' _ link t ht => by
      have hnames : (tierColumns a false (w.baseColumns a)).map (·.name) =
          (tierColumns b false (w'.baseColumns b)).map (·.name) := by
        have hnames (a : Sheet) : (a.tier false).map (·.name) =
            ((a.tier false).map SheetColumn.header).map Prod.fst := by
          rw [List.map_map]
          rfl
        rw [map_name_tierColumns hfaults, map_name_tierColumns hfaults', hnames, hnames,
          map_header_tier, map_header_tier, hheaders]
      obtain ⟨t', ht'⟩ := exists_tableSchema_congr hnames ht
      exact ⟨t', ht', trivial⟩) h
  exact ⟨_, hb⟩

/-- The table of a normal tier comes last. -/
theorem exists_last_of_resolveSheet {schemas : List Schema}
    (h : w.resolveSheet settings a = .ok schemas) (htier : a.tier false ≠ []) :
    ∃ before t, schemas = before ++ [t] ∧ t.based = a.based ∧ t.group = a.group.getD a.table := by
  obtain ⟨hfaults, parent, table, rfl, -, hown⟩ := resolveSheet_ok_iff.1 h
  cases table with
  | none => exact absurd hown (tierColumns_ne_nil hfaults htier _)
  | some t =>
    obtain ⟨-, link, -, hschema⟩ := hown
    obtain ⟨-, hbased, hgroup⟩ := fields_of_tableSchema hschema
    exact ⟨_, t, rfl, hbased, hgroup⟩

end Workbook

end TypedSheets
