import TypedSheets.Proofs.Casting.Spelling
import TypedSheets.Proofs.Check.Keys
import TypedSheets.Proofs.Compilation.Parents
import TypedSheets.Proofs.Compilation.Related

/-!
# Checks of members in two spellings

Keys and values of relations are compared by their texts, and the name of a member and its number
are different texts of one member. So the check of keys does not find two rows with one member if
one of them has it by its number, and the check of relation values misses it in a column that has it
in the other spelling. The spelling makes no difference only where it is the same throughout: among
the keys of a table, and among the texts that are compared for a relation.

## Main definitions

* `Session.Respells` — a sheet of which some members are written by their numbers in another sheet.
* `KeysApart` — in the keys of a table the two spellings do not meet.
* `Session.comparedTexts` — the texts that are compared when values are looked up in a column.
* `Diagnostic.site` — everything of a diagnostic but its wording.

## Main results

* `Check.site_duplicateRows_respelled`, `Session.site_missingIn_respelled` — where the two spellings
  do not meet, the complaints of both checks stay in their places.
* `Workbook.Prepares.checks_respelled` — the same for workbooks whose sheets differ in spelling.
* `Workbook.grades_respelled_fails` — where they do meet, duplicates are lost, and values missed.
-/

namespace TypedSheets

open Recall

/-- Everything of a diagnostic but its wording. -/
def Diagnostic.site (d : Diagnostic) : Option Location × List Location × Option String :=
  (d.location, d.related, d.subject)

/-! ### Sheets in two spellings -/

/-- A sheet whose cells are left as they are or hold members that the other sheet has by their
numbers. -/
structure Session.Respells (s : Session) (name : String) (members : List (String × Int64))
    (a b : Sheet) : Prop where
  /-- Where the sheets stand, and what they declare. -/
  bare : a.bare = b.bare
  /-- Their rows. -/
  rows : ∀ bold, a.rowsOf bold = b.rowsOf bold
  /-- The cells that go into the columns of a table. -/
  cells : ∀ bold, ∀ schema ∈ s.target? a bold, ∀ row ∈ a.rowsOf bold,
    ∀ c ∈ schema.columns.values, ∀ cell ∈ s.sourceCell? a bold row c.name,
      ∃ cell' ∈ s.sourceCell? b bold row c.name, s.defs.Respells name members c.type cell cell'

instance (s : Session) (name : String) (members : List (String × Int64)) (a b : Sheet) :
    Decidable (s.Respells name members a b) :=
  decidable_of_iff (a.bare = b.bare ∧ (∀ bold, a.rowsOf bold = b.rowsOf bold) ∧
    ∀ bold, ∀ schema ∈ s.target? a bold, ∀ row ∈ a.rowsOf bold, ∀ c ∈ schema.columns.values,
      ∀ cell ∈ s.sourceCell? a bold row c.name, ∃ cell' ∈ s.sourceCell? b bold row c.name,
        s.defs.Respells name members c.type cell cell')
    ⟨fun h => ⟨h.1, h.2.1, h.2.2⟩, fun h => ⟨h.bare, h.rows, h.cells⟩⟩

theorem Session.Respells.alike {s : Session} {name : String} {members : List (String × Int64)}
    (hm : s.defs.enums.Numbers name members) {a b : Sheet} (h : s.Respells name members a b) :
    s.SheetsAlike (Value.Respelled members) a b where
  bare := h.bare
  rows := h.rows
  cells := by
    rintro bold schema ht row hrow c hc e ⟨hname, cell, hsource, hcast⟩
    obtain ⟨cell', hsource', hcell⟩ := h.cells bold schema ht row hrow c hc cell hsource
    obtain ⟨v, hv, hrespelled⟩ := hcell.exists_cast hm hcast
    exact ⟨v, ⟨hname, cell', hsource', hv⟩, hrespelled⟩

/-! ### Keys in two spellings -/

/-- The key of a row with a group key. -/
def joined (parent value : String) : String :=
  parent ++ "/" ++ value

@[simp] theorem toList_joined (parent value : String) :
    (joined parent value).toList = parent.toList ++ '/' :: value.toList := by
  simp [joined]

/-- Two keys can be taken apart at their first slashes, or at their last ones. -/
theorem joined_inj {g g' a a' : String}
    (h : '/' ∉ g.toList ∧ '/' ∉ g'.toList ∨ '/' ∉ a.toList ∧ '/' ∉ a'.toList) :
    joined g a = joined g' a' ↔ g = g' ∧ a = a' := by
  rw [← String.toList_inj, toList_joined, toList_joined, ← String.toList_inj, ← String.toList_inj]
  rcases h with ⟨h, h'⟩ | ⟨h, h'⟩
  · exact Text.append_cons_inj h h'
  · rw [← List.reverse_inj, List.reverse_append, List.reverse_append, List.reverse_cons,
      List.reverse_cons, List.append_assoc, List.append_assoc, List.singleton_append,
      List.singleton_append,
      Text.append_cons_inj (List.mem_reverse.not.2 h) (List.mem_reverse.not.2 h'),
      List.reverse_inj, List.reverse_inj, and_comm]

/-- The texts of the values of a column, row by row. -/
def TableData.textsOf (d : TableData) (table column : String) : List String :=
  ((d.rowsOf table).filterMap (·.values.find? column)).map Value.text

/-- In the keys of a table members are spelled in one way before and in one way afterwards, and
keys of two parts can be taken apart. -/
structure KeysApart (members : List (String × Int64)) (d d' : TableData) (t : Schema) : Prop where
  /-- The primary key. -/
  primary : ∀ c ∈ t.primaryKey?,
    SpelledApart members (d.textsOf t.name c.name) (d'.textsOf t.name c.name)
  /-- The group key. -/
  group : ∀ c ∈ t.groupKey?,
    SpelledApart members (d.textsOf t.name c.name) (d'.textsOf t.name c.name)
  /-- One of the two is without slashes. -/
  plain : ∀ c ∈ t.primaryKey?, ∀ g ∈ t.groupKey?,
    (∀ a ∈ d.textsOf t.name c.name, '/' ∉ a.toList) ∨ ∀ a ∈ d.textsOf t.name g.name, '/' ∉ a.toList

instance (members : List (String × Int64)) (d d' : TableData) (t : Schema) :
    Decidable (KeysApart members d d' t) :=
  decidable_of_iff
    ((∀ c ∈ t.primaryKey?,
        SpelledApart members (d.textsOf t.name c.name) (d'.textsOf t.name c.name)) ∧
      (∀ c ∈ t.groupKey?,
        SpelledApart members (d.textsOf t.name c.name) (d'.textsOf t.name c.name)) ∧
      ∀ c ∈ t.primaryKey?, ∀ g ∈ t.groupKey?,
        (∀ a ∈ d.textsOf t.name c.name, '/' ∉ a.toList) ∨
          ∀ a ∈ d.textsOf t.name g.name, '/' ∉ a.toList)
    ⟨fun h => ⟨h.1, h.2.1, h.2.2⟩, fun h => ⟨h.primary, h.group, h.plain⟩⟩

namespace Check

variable {ts : EnumTables} {name : String} {members : List (String × Int64)}

/-- The key of a row in two spellings. -/
def KeyPair (members : List (String × Int64)) (d d' : TableData) (t : Schema)
    (primary : SchemaColumn) (k k' : String) : Prop :=
  match t.groupKey? with
  | none => TextPair members (d.textsOf t.name primary.name) (d'.textsOf t.name primary.name) k k'
  | some g => ∃ parent parent' value value',
    TextPair members (d.textsOf t.name g.name) (d'.textsOf t.name g.name) parent parent' ∧
    TextPair members (d.textsOf t.name primary.name) (d'.textsOf t.name primary.name) value value' ∧
    k = joined parent value ∧ k' = joined parent' value'

variable {before after gbefore gafter : List String} {a a' b b' g g' k k' : String}

/-- Keys of two parts that can be taken apart stay equal or different. -/
theorem joined_eq_iff (hm : ts.Numbers name members) (hapart : SpelledApart members before after)
    (hgapart : SpelledApart members gbefore gafter)
    (hplain : (∀ a ∈ before, '/' ∉ a.toList) ∨ ∀ a ∈ gbefore, '/' ∉ a.toList)
    (ha : TextPair members before after a a') (hb : TextPair members before after b b')
    (hg : TextPair members gbefore gafter g g') (hk : TextPair members gbefore gafter k k') :
    joined g a = joined k b ↔ joined g' a' = joined k' b' := by
  have hslash : '/'.isDigit = false := rfl
  have hsplit : ('/' ∉ g.toList ∧ '/' ∉ k.toList ∨ '/' ∉ a.toList ∧ '/' ∉ b.toList) ∧
      ('/' ∉ g'.toList ∧ '/' ∉ k'.toList ∨ '/' ∉ a'.toList ∧ '/' ∉ b'.toList) := by
    rcases hplain with hplain | hplain
    · obtain ⟨ha, ha'⟩ := ha.not_mem_toList hm hslash hplain
      obtain ⟨hb, hb'⟩ := hb.not_mem_toList hm hslash hplain
      exact ⟨.inr ⟨ha, hb⟩, .inr ⟨ha', hb'⟩⟩
    · obtain ⟨hg, hg'⟩ := hg.not_mem_toList hm hslash hplain
      obtain ⟨hk, hk'⟩ := hk.not_mem_toList hm hslash hplain
      exact ⟨.inl ⟨hg, hk⟩, .inl ⟨hg', hk'⟩⟩
  rw [joined_inj hsplit.1, joined_inj hsplit.2, ha.eq_iff hm hapart hb, hg.eq_iff hm hgapart hk]

variable {d d' : TableData} {t : Schema} {primary : SchemaColumn}

/-- Keys in two spellings stay equal or different. -/
theorem KeyPair.eq_iff (hm : ts.Numbers name members) (hprimary : t.primaryKey? = some primary)
    (hapart : KeysApart members d d' t) (ha : KeyPair members d d' t primary a a')
    (hb : KeyPair members d d' t primary b b') : a = b ↔ a' = b' := by
  unfold KeyPair at ha hb
  cases hgroup : t.groupKey? with
  | none =>
    rw [hgroup] at ha hb
    exact ha.eq_iff hm (hapart.primary primary hprimary) hb
  | some g =>
    rw [hgroup] at ha hb
    obtain ⟨g, g', a, a', hg, ha, rfl, rfl⟩ := ha
    obtain ⟨k, k', b, b', hk, hb, rfl, rfl⟩ := hb
    exact joined_eq_iff hm (hapart.primary primary hprimary) (hapart.group _ hgroup)
      (hapart.plain primary hprimary _ hgroup) ha hb hg hk

/-- The values of a column in related rows. -/
theorem exists_textPair {column table : String} {r r' : CastRow}
    (h : r.Related (Value.Respelled members) r') (hr : r ∈ d.rowsOf table)
    (hr' : r' ∈ d'.rowsOf table) {v : Value} (hv : r.values.find? column = some v) :
    ∃ v', r'.values.find? column = some v' ∧ v'.isNull = v.isNull ∧
      TextPair members (d.textsOf table column) (d'.textsOf table column) v.text v'.text := by
  have hfind := h.values.find? column
  rw [hv] at hfind
  obtain ⟨v', hv', hrespelled⟩ := hfind.exists_of_some
  exact ⟨v', hv', hrespelled.isNull_eq, hrespelled.text,
    List.mem_map_of_mem (List.mem_filterMap.2 ⟨r, hr, hv⟩),
    List.mem_map_of_mem (List.mem_filterMap.2 ⟨r', hr', hv'⟩)⟩

theorem rel_keyText? {r r' : CastRow} (h : r.Related (Value.Respelled members) r')
    (hr : r ∈ d.rowsOf t.name) (hr' : r' ∈ d'.rowsOf t.name)
    (hgroup : ∀ g ∈ t.groupKey?, ∃ v, r.values.find? g.name = some v) :
    Option.Rel (KeyPair members d d' t primary) (keyText? primary t.groupKey? r)
      (keyText? primary t.groupKey? r') := by
  unfold keyText?
  cases hv : r.values.find? primary.name with
  | none =>
    have hfind := h.values.find? primary.name
    rw [hv] at hfind
    rw [hfind.eq_none]
    exact .none
  | some v =>
    obtain ⟨v', hv', hnull, hpair⟩ := exists_textPair h hr hr' hv
    rw [hv', Option.filter_some, Option.filter_some, hnull]
    cases v.isNull with
    | true => exact .none
    | false =>
      refine .some ?_
      unfold KeyPair
      cases hg : t.groupKey? with
      | none => exact hpair
      | some g =>
        obtain ⟨x, hx⟩ := hgroup g hg
        obtain ⟨x', hx', -, hgpair⟩ := exists_textPair h hr hr' hx
        refine ⟨x.text, x'.text, v.text, v'.text, hgpair, hpair, ?_, ?_⟩
        · rw [Option.bind_some, hx]
          rfl
        · rw [Option.bind_some, hx']
          rfl

variable {s : Session}

/-- The keys of a table in two spellings. -/
theorem forall₂_keysOf (hdata : s.data.Related (Value.Respelled members) d')
    (hprimary : t.primaryKey? = some primary)
    (hgroup : ∀ r ∈ s.data.rowsOf t.name, ∀ g ∈ t.groupKey?, ∃ v, r.values.find? g.name = some v) :
    List.Forall₂ (fun k k' => KeyPair members s.data d' t primary k.1 k'.1 ∧ k.2 = k'.2)
      (keysOf s t) (keysOf { s with data := d' } t) := by
  unfold keysOf
  rw [hprimary]
  dsimp only
  refine List.rel_flatMap (hdata.sheets t.name).and_mem fun sheet sheet' ⟨hsheet, hmem, hmem'⟩ => ?_
  refine List.rel_filterMap (fun r r' ⟨hrow, hr, hr'⟩ => ?_) hsheet.rows.and_mem
  have hr : r ∈ s.data.rowsOf t.name := List.mem_flatMap.2 ⟨sheet, hmem, hr⟩
  have hr' : r' ∈ d'.rowsOf t.name := List.mem_flatMap.2 ⟨sheet', hmem', hr'⟩
  have hkey : Option.Rel (KeyPair members s.data d' t primary) (keyText? primary t.groupKey? r)
      (keyText? primary t.groupKey? r') := rel_keyText? hrow hr hr' (hgroup r hr)
  generalize keyText? primary t.groupKey? r = o, keyText? primary t.groupKey? r' = o' at hkey
  cases hkey with
  | none => exact .none
  | some hkey =>
    refine .some ⟨hkey, ?_⟩
    rw [CastSheet.locationOf, CastSheet.locationOf, hsheet.location, hrow.row]

/-- **Duplicates in two spellings.** Where spellings do not meet in the keys of a table, rows with
one key stay rows with one key. -/
theorem site_duplicateRows_respelled (hm : ts.Numbers name members)
    (hdata : s.data.Related (Value.Respelled members) d')
    (hgroup : ∀ r ∈ s.data.rowsOf t.name, ∀ g ∈ t.groupKey?, ∃ v, r.values.find? g.name = some v)
    (hapart : KeysApart members s.data d' t) :
    (duplicateRows { s with data := d' } t).map Diagnostic.site =
      (duplicateRows s t).map Diagnostic.site := by
  have hplaces : (repeated (keysOf { s with data := d' } t)).map Prod.snd =
      (repeated (keysOf s t)).map Prod.snd := by
    cases hprimary : t.primaryKey? with
    | none => simp [keysOf, hprimary]
    | some primary =>
      exact (places_repeated_congr (forall₂_keysOf hdata hprimary hgroup) fun ha hb =>
        ha.eq_iff hm hprimary hapart hb).symm
  have hsite (keys : List (String × Location)) :
      ((repeated keys).map fun e => Diagnostic.duplicateKey t.name e.1 e.2).map Diagnostic.site =
        ((repeated keys).map Prod.snd).map fun places => (places.head?, places.tail, none) := by
    rw [List.map_map, List.map_map]
    rfl
  rw [duplicateRows, duplicateRows, hsite, hsite, hplaces]

end Check

/-! ### Relations in two spellings -/

/-- A value of a relation type in two spellings. -/
structure RelationUse.Respelled (members : List (String × Int64)) (u u' : RelationUse) : Prop where
  /-- The table the relation leads to. -/
  table : u.table = u'.table
  /-- The column the relation leads to. -/
  column : u.column = u'.column
  /-- The text of the value. -/
  value : RespelledText members u.value u'.value
  /-- The row or sheet that holds it. -/
  location : u.location = u'.location
  /-- What holds it there. -/
  subject : u.subject = u'.subject

/-- The positions of a value in two spellings. -/
theorem Value.Respelled.positions {members : List (String × Int64)} {v v' : Value}
    (h : v.Respelled members v') (ps : Prototypes) (expr : TypeExpr) :
    List.Forall₂ (fun p p' => p.1 = p'.1 ∧ p.2.Respelled members p'.2) (v.positions ps expr)
      (v'.positions ps expr) := by
  have hsingle (e : EnumValue) : (Value.enum e).positions ps expr = [(expr, .enum e)] := by
    simp [Value.positions]
  rcases h with rfl | ⟨p, hp, rfl, rfl⟩
  · exact List.forall₂_same.2 fun _ _ => ⟨rfl, .inl rfl⟩
  · rw [hsingle, hsingle]
    exact .cons ⟨rfl, .inr ⟨p, hp, rfl, rfl⟩⟩ .nil

namespace Session

variable {s : Session} {members : List (String × Int64)} {d' : TableData}

theorem rel_relationText? {p p' : TypeExpr × Value} (h : p.1 = p'.1 ∧ p.2.Respelled members p'.2) :
    Option.Rel (fun e e' => e.1 = e'.1 ∧ e.2.1 = e'.2.1 ∧ RespelledText members e.2.2 e'.2.2)
      (s.relationText? p) (relationText? { s with data := d' } p') := by
  obtain ⟨expr, v⟩ := p
  obtain ⟨_, v'⟩ := p'
  obtain ⟨rfl, h⟩ := h
  unfold relationText?
  dsimp only
  rw [h.isNull_eq]
  split
  · exact .none
  · cases expr.relation? with
    | none => exact .none
    | some target =>
      show Option.Rel _ (s.schemas.targetColumn? target >>= _)
        (s.schemas.targetColumn? target >>= _)
      cases s.schemas.targetColumn? target with
      | none => exact .none
      | some column => exact .some ⟨rfl, rfl, h.text⟩

theorem forall₂_usesIn {v v' : Value} (h : v.Respelled members v') (location : Location)
    (subject : String × String) (expr : TypeExpr) :
    List.Forall₂ (RelationUse.Respelled members) (s.usesIn location subject expr v)
      (usesIn { s with data := d' } location subject expr v') := by
  unfold usesIn
  rw [List.forall₂_map_left_iff, List.forall₂_map_right_iff]
  refine (List.rel_filterMap (fun p p' hp => rel_relationText? hp)
    (h.positions s.defs.prototypes expr)).imp fun e e' he => ?_
  exact ⟨he.1, he.2.1, he.2.2, rfl, rfl⟩

theorem forall₂_usesInRow {r r' : CastRow} (h : r.Related (Value.Respelled members) r') (t : Schema)
    (location : Location) :
    List.Forall₂ (RelationUse.Respelled members) (s.usesInRow t location r)
      (usesInRow { s with data := d' } t location r') := by
  unfold usesInRow
  refine List.forall₂_flatMap fun c _ => ?_
  have hfind := h.values.find? c.name
  generalize r.values.find? c.name = o, r'.values.find? c.name = o' at hfind
  cases hfind with
  | none => exact .nil
  | some hv => exact forall₂_usesIn hv location _ _

theorem forall₂_relationUses (hdata : s.data.Related (Value.Respelled members) d') :
    List.Forall₂ (RelationUse.Respelled members) s.relationUses
      (relationUses { s with data := d' }) := by
  unfold relationUses
  refine List.rel_append ?_ ?_
  · refine List.forall₂_flatMap fun t _ => ?_
    refine List.rel_flatMap (hdata.sheets t.name) fun sheet sheet' hsheet => ?_
    refine List.rel_flatMap hsheet.rows fun r r' hr => ?_
    rw [CastSheet.locationOf, CastSheet.locationOf, hsheet.location, hr.row]
    exact forall₂_usesInRow hr t _
  · show List.Forall₂ _ _ (d'.consts.flatMap s.usesInConst)
    rw [hdata.consts]
    exact List.forall₂_same.2 fun u _ => ⟨rfl, rfl, .inl rfl, rfl, rfl⟩

theorem forall₂_columnValues (hdata : s.data.Related (Value.Respelled members) d')
    (table column : String) :
    List.Forall₂ (Value.Respelled members) (s.columnValues table column)
      (columnValues { s with data := d' } table column) := by
  unfold columnValues
  refine List.forall₂_flatMap fun name _ => List.rel_filter (fun v v' hv => ?_)
    (List.rel_filterMap (fun r r' hr => ?_) (hdata.rowsOf name))
  · show (!v.isNull) = true ↔ (!v'.isNull) = true
    rw [hv.isNull_eq]
  · exact hr.values.find? column

/-- The texts that are compared when the values of a relation are looked up in a column. -/
def comparedTexts (s : Session) (table column : String) : List String :=
  s.columnTexts table column ++
    (s.relationUses.filter fun u => u.table = table ∧ u.column = column).map (·.value)

/-- The complaints about values that are not found where their relations lead to, for some of the
columns that relations lead to. For all columns, they are what the check reports. -/
def missingIn (s : Session) (p : String → String → Bool) : List Diagnostic :=
  (s.unrealized.filter fun u => p u.table u.column).map Check.missingValue

/-- A value of a relation type, among the texts it is compared with. -/
theorem textPair_of_use {u u' : RelationUse} (h : u.Respelled members u')
    (hu : u ∈ s.relationUses) (hu' : u' ∈ relationUses { s with data := d' }) :
    TextPair members (s.comparedTexts u.table u.column)
      (comparedTexts { s with data := d' } u.table u.column) u.value u'.value := by
  refine ⟨h.value, List.mem_append_right _ ?_, List.mem_append_right _ ?_⟩
  · exact List.mem_map_of_mem (List.mem_filter.2 ⟨hu, by simp⟩)
  · exact List.mem_map_of_mem (List.mem_filter.2 ⟨hu', by simp [h.table, h.column]⟩)

/-- Where spellings do not meet, a value of a relation type is found as before. -/
theorem realizes_respelled_iff {ts : EnumTables} {name : String} (hm : ts.Numbers name members)
    (hdata : s.data.Related (Value.Respelled members) d') {u u' : RelationUse}
    (h : u.Respelled members u') (hu : u ∈ s.relationUses)
    (hu' : u' ∈ relationUses { s with data := d' })
    (hapart : SpelledApart members (s.comparedTexts u.table u.column)
      (comparedTexts { s with data := d' } u.table u.column)) :
    s.Realizes u ↔ Realizes { s with data := d' } u' := by
  have hpair := textPair_of_use h hu hu'
  have hvalues := (forall₂_columnValues hdata u.table u.column).and_mem
  have hiff {v v' : Value} (hv : v.Respelled members v' ∧ v ∈ s.columnValues u.table u.column ∧
      v' ∈ columnValues { s with data := d' } u.table u.column) :
      v.text = u.value ↔ v'.text = u'.value :=
    TextPair.eq_iff hm hapart ⟨hv.1.text,
      List.mem_append_left _ (mem_columnTexts_iff.2 ⟨v, hv.2.1, rfl⟩),
      List.mem_append_left _ (mem_columnTexts_iff.2 ⟨v', hv.2.2, rfl⟩)⟩ hpair
  rw [Realizes, Realizes, ← h.table, ← h.column, mem_columnTexts_iff, mem_columnTexts_iff]
  constructor
  · rintro ⟨v, hv, htext⟩
    obtain ⟨v', hv', hrel⟩ := hvalues.exists_of_mem_left hv
    exact ⟨v', hv', (hiff hrel).1 htext⟩
  · rintro ⟨v', hv', htext⟩
    obtain ⟨v, hv, hrel⟩ := hvalues.exists_of_mem_right hv'
    exact ⟨v, hv, (hiff hrel).2 htext⟩

/-- **Missing values in two spellings.** Where spellings do not meet in the texts that are compared
for columns, values are missing in the same places as before. -/
theorem site_missingIn_respelled {ts : EnumTables} {name : String} (hm : ts.Numbers name members)
    (hdata : s.data.Related (Value.Respelled members) d') {p : String → String → Bool}
    (hapart : ∀ table column, p table column = true →
      SpelledApart members (s.comparedTexts table column)
        (comparedTexts { s with data := d' } table column)) :
    (missingIn { s with data := d' } p).map Diagnostic.site =
      (s.missingIn p).map Diagnostic.site := by
  unfold missingIn unrealized
  rw [List.filter_filter, List.filter_filter, List.map_map, List.map_map]
  refine (List.Forall₂.map_eq ?_).symm
  refine (List.rel_filter (fun u u' hu => ?_) (forall₂_relationUses hdata).and_mem).imp
    fun u u' hu => ?_
  · obtain ⟨h, hu, hu'⟩ := hu
    dsimp only
    rw [← h.table, ← h.column]
    cases hp : p u.table u.column with
    | false => simp
    | true =>
      have hiff := realizes_respelled_iff hm hdata h hu hu' (hapart _ _ hp)
      simp [hiff]
  · show ((Check.missingValue u).site = (Check.missingValue u').site)
    simp only [Diagnostic.site, Check.missingValue, complaint, Diagnostic.about, hu.1.location,
      hu.1.subject]

end Session

namespace Workbook

variable {w w' : Workbook} {settings : Settings} {workers : Nat} {s : Session} {name : String}
  {members : List (String × Int64)}

/-- **Checks of members in two spellings.** Members of an enum that cells hold by their names can be
written by their numbers. Where no member has been written by its number before, and none is written
by its name afterwards, the check of keys finds the same duplicates, and the check of relation
values misses values in the same places. -/
theorem Prepares.checks_respelled (h : w.Prepares settings workers s)
    (hm : s.defs.enums.Numbers name members)
    (hsheets : List.Forall₂ (s.Respells name members) w.sheets w'.sheets)
    (hconsts : w.consts = w'.consts) (henums : w.enums = w'.enums)
    (hprototypes : w.prototypes = w'.prototypes) :
    ∃ data, w'.Prepares settings workers { s with data } ∧
      (∀ t ∈ s.schemas.values, KeysApart members s.data data t →
        (Check.duplicateRows { s with data } t).map Diagnostic.site =
          (Check.duplicateRows s t).map Diagnostic.site) ∧
      ∀ p : String → String → Bool,
        (∀ table column, p table column = true → SpelledApart members
          (s.comparedTexts table column) (Session.comparedTexts { s with data } table column)) →
        (Session.missingIn { s with data } p).map Diagnostic.site =
          (s.missingIn p).map Diagnostic.site := by
  obtain ⟨data, hs, hdata⟩ :=
    h.exists_related (hsheets.imp fun _ _ hab => hab.alike hm) hconsts henums hprototypes
  refine ⟨data, hs, fun t ht hapart => ?_, fun p hapart =>
    Session.site_missingIn_respelled hm hdata hapart⟩
  refine Check.site_duplicateRows_respelled hm hdata (fun r hr g hg => ?_) hapart
  exact h.exists_value_of_row ht hr (List.mem_of_find?_eq_some hg)

/-- Items by their grades, and drops of items. -/
def grades (items drops : List (Nat × Cell)) : Workbook where
  sheets := [
    { location := ⟨"drop.xlsx", "Item", none⟩, table := "Item", based := none, group := none,
      columns := [⟨"Grade", "*Grade", .common, false, .ofList items⟩] },
    { location := ⟨"drop.xlsx", "Drop", none⟩, table := "Drop", based := none, group := none,
      columns := [⟨"Item", "$Item", .common, false, .ofList drops⟩] }]
  enums := [{
    location := ⟨"drop.xlsx", "Grade", none⟩, table := "Grade",
    members := [("A", "1"), ("B", "2"), ("C", "3")] }]


/-- The members of the grades. -/
def gradeMembers : List (String × Int64) := [("A", 1), ("B", 2), ("C", 3)]

/-- Two items of one grade and one of another, and drops of which one is missed. -/
def gradesByName : Workbook :=
  grades [(1, .text "A"), (2, .text "A"), (3, .text "B")] [(1, .text "B"), (2, .text "C")]

/-- The same with the numbers of the grades. -/
def gradesByNumber : Workbook :=
  grades [(1, .text "1"), (2, .text "1"), (3, .text "2")] [(1, .text "2"), (2, .text "3")]

/-- Items and drops of both spellings: the second item and the first drop have numbers. -/
def gradesMixed : Workbook :=
  grades [(1, .text "A"), (2, .text "1"), (3, .text "B")] [(1, .text "2"), (2, .text "C")]

/-- What the checks complain about: items of one grade, and drops without an item. -/
def gradeSites (s : Session) : List (Option Location × List Location × Option String) :=
  (s.schemas.values.flatMap fun t => (Check.duplicateRows s t).map Diagnostic.site) ++
    (s.missingIn fun table column => table == "Item" && column == "Grade").map Diagnostic.site

/-- Grades that are spelled by their numbers everywhere are checked as before. -/
theorem grades_respelled : ∃ s data, gradesByName.Prepares {} 1 s ∧
    gradesByNumber.Prepares {} 1 { s with data } ∧
    gradeSites s = [
      (some ⟨"drop.xlsx", "Item", some 1⟩, [⟨"drop.xlsx", "Item", some 2⟩], none),
      (some ⟨"drop.xlsx", "Drop", some 2⟩, [], some "Drop.Item")] ∧
    gradeSites { s with data } = gradeSites s := by
  obtain ⟨s, hs, hp⟩ := gradesByName.exists_prepares {} (p := fun s =>
    decide (s.defs.enums.Numbers "Grade" gradeMembers) &&
      decide (List.Forall₂ (s.Respells "Grade" gradeMembers) gradesByName.sheets
        gradesByNumber.sheets) &&
      decide (gradeSites s = [
        (some ⟨"drop.xlsx", "Item", some 1⟩, [⟨"drop.xlsx", "Item", some 2⟩], none),
        (some ⟨"drop.xlsx", "Drop", some 2⟩, [], some "Drop.Item")]) &&
      (gradesByNumber.prepare {}).run.fresh.toOption.any fun (s' : Session) =>
        decide (∀ t ∈ s.schemas.values, KeysApart gradeMembers s.data s'.data t) &&
          decide (SpelledApart gradeMembers (s.comparedTexts "Item" "Grade")
            (s'.comparedTexts "Item" "Grade"))) (by decide +kernel) 1
  simp only [Bool.and_eq_true, decide_eq_true_eq] at hp
  obtain ⟨⟨⟨hnumbers, hsheets⟩, hsites⟩, hapart⟩ := hp
  obtain ⟨data, hs', hkeys, hmissing⟩ := hs.checks_respelled hnumbers hsheets rfl rfl rfl
  rw [prepares_iff.1 hs'] at hapart
  obtain ⟨hkeysApart, htextsApart⟩ :
      (∀ t ∈ s.schemas.values, KeysApart gradeMembers s.data data t) ∧
        SpelledApart gradeMembers (s.comparedTexts "Item" "Grade")
          (Session.comparedTexts { s with data } "Item" "Grade") := by
    simpa [Except.toOption] using hapart
  refine ⟨s, data, hs, hs', hsites, ?_⟩
  rw [gradeSites, gradeSites, hmissing _ fun table column hp => ?_]
  · congr 1
    exact List.flatMap_congr fun t ht => hkeys t ht (hkeysApart t ht)
  · simp only [Bool.and_eq_true, beq_iff_eq] at hp
    rw [hp.1, hp.2]
    exact htextsApart

/-- **The number of a member is not its name**: where one cell of two is respelled, two items of one
grade are no longer duplicates, and a drop of an item that is there is missed. -/
theorem grades_respelled_fails : ∃ s data, gradesByName.Prepares {} 1 s ∧
    gradesMixed.Prepares {} 1 { s with data } ∧ s.defs.enums.Numbers "Grade" gradeMembers ∧
    List.Forall₂ (s.Respells "Grade" gradeMembers) gradesByName.sheets gradesMixed.sheets ∧
    gradeSites s = [
      (some ⟨"drop.xlsx", "Item", some 1⟩, [⟨"drop.xlsx", "Item", some 2⟩], none),
      (some ⟨"drop.xlsx", "Drop", some 2⟩, [], some "Drop.Item")] ∧
    gradeSites { s with data } = [
      (some ⟨"drop.xlsx", "Drop", some 1⟩, [], some "Drop.Item"),
      (some ⟨"drop.xlsx", "Drop", some 2⟩, [], some "Drop.Item")] := by
  obtain ⟨s, hs, hp⟩ := gradesByName.exists_prepares {} (p := fun s =>
    decide (s.defs.enums.Numbers "Grade" gradeMembers) &&
      decide (List.Forall₂ (s.Respells "Grade" gradeMembers) gradesByName.sheets
        gradesMixed.sheets) &&
      decide (gradeSites s = [
        (some ⟨"drop.xlsx", "Item", some 1⟩, [⟨"drop.xlsx", "Item", some 2⟩], none),
        (some ⟨"drop.xlsx", "Drop", some 2⟩, [], some "Drop.Item")]) &&
      (gradesMixed.prepare {}).run.fresh.toOption.any fun (s' : Session) =>
        decide (gradeSites s' = [
          (some ⟨"drop.xlsx", "Drop", some 1⟩, [], some "Drop.Item"),
          (some ⟨"drop.xlsx", "Drop", some 2⟩, [], some "Drop.Item")])) (by decide +kernel) 1
  simp only [Bool.and_eq_true, decide_eq_true_eq] at hp
  obtain ⟨⟨⟨hnumbers, hsheets⟩, hsites⟩, hsites'⟩ := hp
  obtain ⟨data, hs', -⟩ :=
    hs.exists_related (hsheets.imp fun _ _ hab => hab.alike hnumbers) rfl rfl rfl
  rw [prepares_iff.1 hs'] at hsites'
  exact ⟨s, data, hs, hs', hnumbers, hsheets, hsites, of_decide_eq_true hsites'⟩

end Workbook

end TypedSheets
