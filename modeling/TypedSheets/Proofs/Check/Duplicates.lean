import TypedSheets.Proofs.Casting.Halting
import TypedSheets.Proofs.Check.Silent
import TypedSheets.Proofs.Check.Spelling

/-!
# Duplicates by the texts of keys

The rows of a table are told apart by the texts of their primary keys, and of their group keys where
the table has one. The check of keys compares single texts instead, in which both texts are joined
by a slash. So rows with one key are always reported together, but rows with different keys are
reported as duplicates where their joined texts coincide. This does not happen in tables without a
group key, nor where one of the two key columns has no slashes.

## Main definitions

* `RowKey`, `RowKey.text` — the key of a row, and the text by which it is compared.
* `Session.rowsWith`, `Session.rowsReading` — the rows with a key, and those whose key has a text.
* `Session.KeysDiffer` — different keys of rows have different texts.

## Main results

* `Check.repeated_eq` — each key of several rows is found once, with all its places in order.
* `Workbook.Prepares.keysDiffer` — keys differ if one of the two key columns has no slashes.
* `Workbook.Prepares.duplicates_reported` — what is reported about duplicates.
* `Workbook.slashes_reported` — two rows with different keys are reported as duplicates.
-/

namespace TypedSheets

open Recall

/-! ### Keys of rows -/

/-- What tells the rows of a table apart. -/
structure RowKey where
  /-- The text of the group key, in a table that has one. -/
  group : Option String
  /-- The text of the primary key. -/
  primary : String
deriving DecidableEq

/-- The text by which a key is compared. -/
def RowKey.text (k : RowKey) : String :=
  match k.group with
  | none => k.primary
  | some parent => joined parent k.primary

/-- The key of a row; none if the primary key is empty. -/
def Schema.rowKey? (t : Schema) (row : CastRow) : Option RowKey :=
  ((t.primaryKey?.bind fun c => row.values.find? c.name).filter (!·.isNull)).map fun value =>
    ⟨(t.groupKey?.bind fun g => row.values.find? g.name).map Value.text, value.text⟩

namespace Session

/-- The rows of a table with their places, sheet by sheet. -/
def placedRows (s : Session) (t : Schema) : List (CastRow × Location) :=
  (s.data.sheets t.name).flatMap fun sheet => sheet.rows.map fun row => (row, sheet.locationOf row)

/-- The rows of a table with a key. -/
def rowsWith (s : Session) (t : Schema) (k : RowKey) : List (CastRow × Location) :=
  (s.placedRows t).filter fun r => t.rowKey? r.1 = some k

/-- The rows of a table whose key has a text. -/
def rowsReading (s : Session) (t : Schema) (text : String) : List (CastRow × Location) :=
  (s.placedRows t).filter fun r => (t.rowKey? r.1).map RowKey.text = some text

/-- Different keys of the rows of a table have different texts. -/
def KeysDiffer (s : Session) (t : Schema) : Prop :=
  ∀ r ∈ s.placedRows t, ∀ r' ∈ s.placedRows t, ∀ k ∈ t.rowKey? r.1, ∀ k' ∈ t.rowKey? r'.1,
    k.text = k'.text → k = k'

variable {s : Session} {t : Schema}

theorem mem_rowsOf_of_placed {r : CastRow × Location} (h : r ∈ s.placedRows t) :
    r.1 ∈ s.data.rowsOf t.name := by
  obtain ⟨sheet, hsheet, hr⟩ := List.mem_flatMap.1 h
  obtain ⟨row, hrow, rfl⟩ := List.mem_map.1 hr
  exact List.mem_flatMap.2 ⟨sheet, hsheet, hrow⟩

/-- Rows with one key have its text. -/
theorem rowsWith_sublist (s : Session) (t : Schema) (k : RowKey) :
    (s.rowsWith t k).Sublist (s.rowsReading t k.text) := by
  refine List.monotone_filter_right _ fun r hr => ?_
  rw [decide_eq_true_eq] at hr ⊢
  rw [hr, Option.map_some]

/-- Where keys differ, the rows with a text are those with one key. -/
theorem KeysDiffer.rowsReading_eq (h : s.KeysDiffer t) {r : CastRow × Location}
    (hr : r ∈ s.placedRows t) {k : RowKey} (hk : t.rowKey? r.1 = some k) :
    s.rowsReading t k.text = s.rowsWith t k := by
  refine List.filter_congr fun r' hr' => decide_eq_decide.2 ?_
  rw [Option.map_eq_some_iff]
  constructor
  · rintro ⟨k', hk', htext⟩
    rw [hk', h r' hr' r hr k' hk' k hk htext]
  · exact fun hk' => ⟨k, hk', rfl⟩

/-- **One text for each key.** Texts that several rows have belong to one key each, and keys that
several rows have to one text each, just if different keys have different texts. -/
theorem keysDiffer_iff {texts : List String}
    (h : ∀ text, text ∈ texts ↔ 1 < (s.rowsReading t text).length) :
    ((∀ text ∈ texts, ∃ k, s.rowsReading t text = s.rowsWith t k) ∧
      ∀ k, 1 < (s.rowsWith t k).length →
        ∃! text, text ∈ texts ∧ s.rowsReading t text = s.rowsWith t k) ↔ s.KeysDiffer t := by
  constructor
  · rintro ⟨hone, -⟩ r hr r' hr' k hk k' hk' htext
    by_contra hne
    have hmem : r ∈ s.rowsReading t k.text := List.mem_filter.2 ⟨hr, by simp [Option.mem_def.1 hk]⟩
    have hmem' : r' ∈ s.rowsReading t k.text :=
      List.mem_filter.2 ⟨hr', by simp [Option.mem_def.1 hk', htext]⟩
    have hrows : r ≠ r' := fun heq => hne (Option.mem_unique hk (heq ▸ hk'))
    obtain ⟨k₀, hk₀⟩ := hone _ ((h _).2 (List.one_lt_length_of_ne hmem hmem' hrows))
    rw [hk₀] at hmem hmem'
    have hr₀ := of_decide_eq_true (List.mem_filter.1 hmem).2
    have hr₀' := of_decide_eq_true (List.mem_filter.1 hmem').2
    exact hne ((Option.mem_unique hk hr₀).trans (Option.mem_unique hk' hr₀').symm)
  · refine fun hdiffer => ⟨fun text htext => ?_, fun k hk => ?_⟩
    · obtain ⟨r, hr⟩ := List.exists_mem_of_length_pos (Nat.zero_lt_of_lt ((h text).1 htext))
      obtain ⟨hplaced, hread⟩ := List.mem_filter.1 hr
      obtain ⟨k, hk, rfl⟩ := Option.map_eq_some_iff.1 (of_decide_eq_true hread)
      exact ⟨k, hdiffer.rowsReading_eq hplaced hk⟩
    · obtain ⟨r, hr⟩ := List.exists_mem_of_length_pos (Nat.zero_lt_of_lt hk)
      obtain ⟨hplaced, hkey⟩ := List.mem_filter.1 hr
      have hsame := hdiffer.rowsReading_eq hplaced (of_decide_eq_true hkey)
      refine ⟨k.text, ⟨(h _).2 (hsame ▸ hk), hsame⟩, ?_⟩
      rintro text ⟨-, htext⟩
      have hread : r ∈ s.rowsReading t text := htext ▸ hr
      obtain ⟨k', hk', rfl⟩ :=
        Option.map_eq_some_iff.1 (of_decide_eq_true (List.mem_filter.1 hread).2)
      rw [Option.mem_unique hk' (of_decide_eq_true hkey)]

end Session

/-! ### Repeated keys -/

namespace Check

variable {s : Session} {w : Workbook} {t : Schema}

/-- **Repeated keys.** Each key that stands at several places is found once, with all its places in
order. -/
theorem repeated_eq {κ : Type} [DecidableEq κ] (keys : List (κ × Location)) :
    ∃ ks : List κ, ks.Nodup ∧ (∀ k, k ∈ ks ↔ 1 < (keys.filter fun e => e.1 = k).length) ∧
      repeated keys = ks.map fun k => (k, (keys.filter fun e => e.1 = k).map Prod.snd) := by
  refine ⟨((Keyed.groupBy Prod.fst keys).entries.filter fun e => 1 < e.2.length).map Prod.fst,
    (Keyed.groupBy Prod.fst keys).distinct.sublist (List.filter_sublist.map _), fun k => ?_, ?_⟩
  · constructor
    · intro hk
      obtain ⟨e, he, rfl⟩ := List.mem_map.1 hk
      obtain ⟨he, hseveral⟩ := List.mem_filter.1 he
      rw [← Keyed.eq_filter_of_mem_groupBy _ he]
      exact of_decide_eq_true hseveral
    · intro hseveral
      obtain ⟨e₀, he₀⟩ := List.exists_mem_of_length_pos (Nat.zero_lt_of_lt hseveral)
      obtain ⟨he₀, hfst⟩ := List.mem_filter.1 he₀
      have hmem : k ∈ (Keyed.groupBy Prod.fst keys).keys :=
        (Keyed.mem_keys_groupBy _).2 (of_decide_eq_true hfst ▸ List.mem_map_of_mem he₀)
      obtain ⟨e, he, rfl⟩ := List.mem_map.1 hmem
      refine List.mem_map_of_mem (List.mem_filter.2 ⟨he, decide_eq_true ?_⟩)
      rwa [Keyed.eq_filter_of_mem_groupBy _ he]
  · unfold repeated
    rw [List.map_map]
    refine List.map_congr_left fun e he => ?_
    rw [Keyed.eq_filter_of_mem_groupBy _ (List.mem_of_mem_filter he)]
    rfl

/-- The text of a row that is compared is that of its key. -/
theorem keyText?_eq {primary : SchemaColumn} (hp : t.primaryKey? = some primary) (row : CastRow) :
    keyText? primary t.groupKey? row = (t.rowKey? row).map RowKey.text := by
  unfold keyText? Schema.rowKey?
  rw [hp, Option.bind_some, Option.map_map]
  congr
  funext value
  cases hg : t.groupKey?.bind fun g => row.values.find? g.name with
  | none => simp [RowKey.text]
  | some parent => simp [RowKey.text, joined]

/-- The keys of a table by the texts of its rows. -/
theorem keysOf_eq (s : Session) (t : Schema) :
    keysOf s t = (s.placedRows t).filterMap fun r =>
      (t.rowKey? r.1).map fun k => (k.text, r.2) := by
  unfold keysOf Session.placedRows
  cases hp : t.primaryKey? with
  | none => simp [Schema.rowKey?, hp]
  | some primary =>
    dsimp only
    rw [List.filterMap_flatMap]
    refine List.flatMap_congr fun sheet _ => ?_
    rw [List.filterMap_map]
    refine List.filterMap_congr fun row _ => ?_
    rw [keyText?_eq hp, Option.map_map]
    rfl

/-- The places of the keys with a text are those of the rows with it. -/
theorem map_filter_keysOf (s : Session) (t : Schema) (text : String) :
    ((keysOf s t).filter fun e => e.1 = text).map Prod.snd =
      (s.rowsReading t text).map Prod.snd := by
  rw [keysOf_eq, Session.rowsReading]
  induction s.placedRows t with
  | nil => rfl
  | cons r rows ih =>
    rw [List.filter_cons]
    cases hk : t.rowKey? r.1 with
    | none => simpa [List.filterMap_cons, hk] using ih
    | some k =>
      by_cases htext : k.text = text
      · simpa [List.filterMap_cons, hk, htext] using ih
      · simpa [List.filterMap_cons, hk, htext] using ih

/-- The complaints about duplicates: one for each text that several rows have. -/
theorem duplicateRows_eq (s : Session) (t : Schema) :
    ∃ texts : List String, texts.Nodup ∧
      (∀ text, text ∈ texts ↔ 1 < (s.rowsReading t text).length) ∧
      duplicateRows s t = texts.map fun text =>
        .duplicateKey t.name text ((s.rowsReading t text).map Prod.snd) := by
  obtain ⟨texts, hnodup, hmem, hrepeated⟩ := repeated_eq (keysOf s t)
  have hlength (text : String) :
      ((keysOf s t).filter fun e => e.1 = text).length = (s.rowsReading t text).length := by
    simpa using congrArg List.length (map_filter_keysOf s t text)
  refine ⟨texts, hnodup, fun text => by rw [hmem, hlength], ?_⟩
  rw [duplicateRows, hrepeated, List.map_map]
  refine List.map_congr_left fun text _ => ?_
  rw [Function.comp_apply, map_filter_keysOf]

/-! ### The other complaints about keys -/

/-- Whether a root type is an enum is always found out. -/
theorem exists_hasEnumRoot (s : Session) (type : String) :
    ∃ b, (hasEnumRoot s type).run.fresh = .ok b := by
  have hstops : Attempt.StopsIn Halt.IsFailure (s.schemas.rootType type) :=
    Definitions.stopsIn_rootType (d := s.defs) (fun _ _ => trivial) type
  obtain ⟨r, hr, -⟩ := hstops.exists_result
  unfold hasEnumRoot
  rw [fresh_bind_run_of_ok hr]
  split
  · exact ⟨_, rfl⟩
  · split <;> exact ⟨_, rfl⟩

/-- Complaints about combined keys are conflicts. -/
theorem exists_combinedKeys (s : Session) (w : Workbook) (t : Schema) :
    ∃ found, (combinedKeys s w t).run.fresh = .ok found ∧
      ∀ d ∈ found, d.code = .schemaConflict := by
  have hcolumn (c : SchemaColumn) : ∃ found : List Diagnostic,
      ((do return if ← hasEnumRoot s c.type then combinedKeysOf s w t.name c.name else [] :
        Attempt (List Diagnostic))).run.fresh = .ok found ∧
      ∀ d ∈ found, d.code = .schemaConflict := by
    obtain ⟨b, hb⟩ := exists_hasEnumRoot s c.type
    rw [fresh_bind_run_of_ok hb]
    cases b with
    | false => exact ⟨[], rfl, nofun⟩
    | true =>
      refine ⟨combinedKeysOf s w t.name c.name, rfl, fun d hd => ?_⟩
      obtain ⟨cell, -, rfl⟩ := List.mem_map.1 hd
      rfl
  choose found hfound hcode using hcolumn
  refine ⟨((keyColumns t).map found).flatten, ?_, fun d hd => ?_⟩
  · unfold combinedKeys
    refine fresh_bind_run_of_ok ?_
    rw [fresh_mapM_run]
    exact Except.mapM_eq_ok_iff.2 <| List.forall₂_map_right_iff.2 <|
      List.forall₂_same.2 fun c _ => hfound c
  · obtain ⟨ds, hds, hd⟩ := List.mem_flatten.1 hd
    obtain ⟨c, -, rfl⟩ := List.mem_map.1 hds
    exact hcode c d hd

/-- Complaints about the declarations of keys are conflicts. -/
theorem code_of_declarationFaults {d : Diagnostic} (h : d ∈ declarationFaults s w t) :
    d.code = .schemaConflict := by
  have hseveral {kind : String} {location : Option Location} {columns : List SchemaColumn}
      (h : d ∈ severalKeys t.name kind location columns) : d.code = .schemaConflict := by
    unfold severalKeys at h
    split at h
    · cases h
    · rw [List.mem_singleton.1 h]
      rfl
  rcases List.mem_append.1 h with h | h
  · exact (List.mem_append.1 h).elim hseveral hseveral
  · obtain ⟨c, -, rfl⟩ := List.mem_map.1 h
    rfl

/-- What the check of the keys of a table comes to needs no memory. -/
theorem plain_tableKeys (s : Session) (w : Workbook) (t : Schema) :
    Plain s.exact (tableKeys s w t).run :=
  (passedOn_asks.tableKeys t).plain fun r _ => s.plain_respond r

/-- What the check of the keys of a table comes to: complaints of another kind, and then those about
duplicates. -/
theorem exists_tableKeys (s : Session) (w : Workbook) (t : Schema) :
    ∃ others : List Diagnostic, (∀ d ∈ others, d.code ≠ .duplicateKey) ∧
      ∀ m : Memory, m.Meets s.exact →
        ((tableKeys s w t).run.run m).1 = .ok (others ++ duplicateRows s t) := by
  obtain ⟨combined, hcombined, hcode⟩ := exists_combinedKeys s w t
  refine ⟨declarationFaults s w t ++ combined, fun d hd => ?_, fun m hm => ?_⟩
  · have hconflict : d.code = .schemaConflict :=
      (List.mem_append.1 hd).elim code_of_declarationFaults (hcode d)
    rw [hconflict]
    exact nofun
  · rw [((plain_tableKeys s w t).run hm).1, tableKeys, fresh_bind_run_of_ok hcombined]
    rfl

end Check

namespace Workbook

variable {w : Workbook} {settings : Settings} {workers : Nat} {s : Session} {t : Schema}

/-- The key of a row of a prepared table: its texts are those of the key columns, and there is a
text of the group key just if the table has one. -/
theorem Prepares.texts_of_rowKey (h : w.Prepares settings workers s) (ht : t ∈ s.schemas.values)
    {r : CastRow × Location} (hr : r ∈ s.placedRows t) {k : RowKey} (hk : t.rowKey? r.1 = some k) :
    ∃ c, t.primaryKey? = some c ∧ k.primary ∈ s.data.textsOf t.name c.name ∧
      (t.groupKey? = none ∧ k.group = none ∨ ∃ g parent, t.groupKey? = some g ∧
        k.group = some parent ∧ parent ∈ s.data.textsOf t.name g.name) := by
  have hrow := Session.mem_rowsOf_of_placed hr
  have htext {column : String} {v : Value} (hv : r.1.values.find? column = some v) :
      v.text ∈ s.data.textsOf t.name column :=
    List.mem_map_of_mem (List.mem_filterMap.2 ⟨r.1, hrow, hv⟩)
  obtain ⟨v, hv, rfl⟩ := Option.map_eq_some_iff.1 hk
  obtain ⟨c, hc, hv⟩ := Option.bind_eq_some_iff.1 (Option.filter_eq_some_iff.1 hv).1
  refine ⟨c, hc, htext hv, ?_⟩
  cases hg : t.groupKey? with
  | none => exact .inl ⟨rfl, rfl⟩
  | some g =>
    obtain ⟨x, hx⟩ := h.exists_value_of_row ht hrow (List.mem_of_find?_eq_some hg)
    refine .inr ⟨g, x.text, rfl, ?_, htext hx⟩
    rw [Option.bind_some, hx, Option.map_some]

/-- **Keys differ** in a table without a group key, and in one where one of the two key columns has
no slashes. -/
theorem Prepares.keysDiffer (h : w.Prepares settings workers s) (ht : t ∈ s.schemas.values)
    (hplain : ∀ c ∈ t.primaryKey?, ∀ g ∈ t.groupKey?,
      (∀ a ∈ s.data.textsOf t.name c.name, '/' ∉ a.toList) ∨
        ∀ a ∈ s.data.textsOf t.name g.name, '/' ∉ a.toList) : s.KeysDiffer t := by
  intro r hr r' hr' k hk k' hk' htext
  obtain ⟨c, hc, hprimary, hgroup⟩ := h.texts_of_rowKey ht hr hk
  obtain ⟨c', hc', hprimary', hgroup'⟩ := h.texts_of_rowKey ht hr' hk'
  obtain rfl : c = c' := Option.mem_unique hc hc'
  obtain ⟨group, primary⟩ := k
  obtain ⟨group', primary'⟩ := k'
  rcases hgroup with ⟨hnone, rfl⟩ | ⟨g, parent, hg, rfl, hparent⟩
  · rcases hgroup' with ⟨-, rfl⟩ | ⟨g', -, hg', -⟩
    · exact congrArg (RowKey.mk none) htext
    · exact absurd (hnone.symm.trans hg') nofun
  · rcases hgroup' with ⟨hnone, -⟩ | ⟨g', parent', hg', rfl, hparent'⟩
    · exact absurd (hnone.symm.trans hg) nofun
    · obtain rfl : g = g' := Option.mem_unique hg hg'
      have hsplit := hplain c hc g hg
      have hslash : '/' ∉ parent.toList ∧ '/' ∉ parent'.toList ∨
          '/' ∉ primary.toList ∧ '/' ∉ primary'.toList :=
        hsplit.symm.imp (fun h => ⟨h _ hparent, h _ hparent'⟩)
          fun h => ⟨h _ hprimary, h _ hprimary'⟩
      obtain ⟨rfl, rfl⟩ := (joined_inj hslash).1 htext
      rfl

/-- **What is reported about duplicates.** Besides complaints of another kind, the check of a table
complains once about each text that the keys of several rows have, and cites these rows in their
order, the first as the place of the complaint and the others as related. Rows with one key are
cited together. There is one complaint for each key that several rows have, which cites these rows
and no other, and no further one, just if different keys have different texts. They have in a table
without a group key, and where one of the two key columns has no slashes. -/
theorem Prepares.duplicates_reported (h : w.Prepares settings workers s)
    (ht : t ∈ s.schemas.values) :
    ∃ (texts : List String) (others : List Diagnostic), texts.Nodup ∧
      (∀ text, text ∈ texts ↔ 1 < (s.rowsReading t text).length) ∧
      (∀ d ∈ others, d.code ≠ .duplicateKey) ∧
      (∀ m : Memory, m.Meets s.exact →
        ((Check.tableKeys s w t).run.run m).1 = .ok (others ++ texts.map fun text =>
          { failure := .duplicateKey t.name text
            location := ((s.rowsReading t text).map Prod.snd).head?
            related := ((s.rowsReading t text).map Prod.snd).tail })) ∧
      (∀ k, 1 < (s.rowsWith t k).length →
        k.text ∈ texts ∧ (s.rowsWith t k).Sublist (s.rowsReading t k.text)) ∧
      (((∀ text ∈ texts, ∃ k, s.rowsReading t text = s.rowsWith t k) ∧
        ∀ k, 1 < (s.rowsWith t k).length →
          ∃! text, text ∈ texts ∧ s.rowsReading t text = s.rowsWith t k) ↔ s.KeysDiffer t) ∧
      ((∀ c ∈ t.primaryKey?, ∀ g ∈ t.groupKey?,
        (∀ a ∈ s.data.textsOf t.name c.name, '/' ∉ a.toList) ∨
          ∀ a ∈ s.data.textsOf t.name g.name, '/' ∉ a.toList) → s.KeysDiffer t) := by
  obtain ⟨texts, hnodup, htexts, hrows⟩ := Check.duplicateRows_eq s t
  obtain ⟨others, hothers, hreport⟩ := Check.exists_tableKeys s w t
  refine ⟨texts, others, hnodup, htexts, hothers, fun m hm => ?_, fun k hk => ⟨?_, ?_⟩,
    Session.keysDiffer_iff htexts, h.keysDiffer ht⟩
  · rw [hreport m hm, hrows]
    rfl
  · exact (htexts _).2 (Nat.lt_of_lt_of_le hk (s.rowsWith_sublist t k).length_le)
  · exact s.rowsWith_sublist t k

/-- Boxes by the shelves they stand on. -/
def shelf (shelves boxes : List (Nat × Cell)) : Workbook where
  sheets := [
    { location := ⟨"shelf.xlsx", "Shelf", none⟩, table := "Shelf", based := none, group := none,
      columns := [⟨"Shelf", "(string)", .common, false, .ofList shelves⟩,
        ⟨"Box", "*string", .common, false, .ofList boxes⟩] }]

/-- Boxes of one name on two shelves, twice on one of them. -/
def boxes : Workbook :=
  shelf [(1, .text "a"), (2, .text "b"), (3, .text "a")]
    [(1, .text "x"), (2, .text "x"), (3, .text "x")]

/-- What is to be tested of the boxes: names without slashes, and a complaint about the box that
stands twice on one shelf. -/
def repeatsBox (s : Session) (t : Schema) : Bool :=
  decide (∀ c ∈ t.primaryKey?, ∀ a ∈ s.data.textsOf t.name c.name, '/' ∉ a.toList) &&
    decide (1 < (s.rowsWith t ⟨some "a", "x"⟩).length) &&
    decide ((Check.tableKeys s boxes t).run.fresh.toOption = some [.duplicateKey "Shelf" "a/x"
      [⟨"shelf.xlsx", "Shelf", some 1⟩, ⟨"shelf.xlsx", "Shelf", some 3⟩]])

/-- A box that stands twice on one shelf is reported once, and its name on another shelf is not. -/
theorem boxes_reported : ∃ s t, boxes.Prepares {} 1 s ∧ t ∈ s.schemas.values ∧ s.KeysDiffer t ∧
    ((Check.tableKeys s boxes t).run.run {}).1 = .ok [.duplicateKey "Shelf" "a/x"
      [⟨"shelf.xlsx", "Shelf", some 1⟩, ⟨"shelf.xlsx", "Shelf", some 3⟩]] ∧
    ∃! text, 1 < (s.rowsReading t text).length ∧
      s.rowsReading t text = s.rowsWith t ⟨some "a", "x"⟩ := by
  obtain ⟨s, hs, hp⟩ := boxes.exists_prepares {} (p := fun s =>
    s.schemas.values.any (repeatsBox s)) (by decide +kernel) 1
  simp only [List.any_eq_true, repeatsBox, Bool.and_eq_true, decide_eq_true_eq] at hp
  obtain ⟨t, ht, ⟨hplain, hseveral⟩, hfound⟩ := hp
  obtain ⟨texts, others, -, htexts, -, -, -, hexact, hdiffer⟩ := hs.duplicates_reported ht
  have hdiffer : s.KeysDiffer t := hdiffer fun c hc _ _ => .inl (hplain c hc)
  refine ⟨s, t, hs, ht, hdiffer, ?_, ?_⟩
  · rw [((Check.plain_tableKeys s boxes t).run (Memory.meets_empty _)).1]
    exact Except.toOption_eq_some_iff.1 hfound
  · simpa only [htexts] using (hexact.2 hdiffer).2 _ hseveral

/-- Boxes with two names on two shelves, with the slash in another part each time. -/
def slashes : Workbook :=
  shelf [(1, .text "a/b"), (2, .text "a")] [(1, .text "c"), (2, .text "b/c")]

/-- What is to be tested of them: the keys of the two rows, and the complaint about both. -/
def confusesBoxes (s : Session) (t : Schema) : Bool :=
  match s.placedRows t with
  | [r, r'] =>
    decide (t.rowKey? r.1 = some ⟨some "a/b", "c"⟩) &&
      decide (t.rowKey? r'.1 = some ⟨some "a", "b/c"⟩) &&
      decide ((Check.tableKeys s slashes t).run.fresh.toOption =
        some [.duplicateKey "Shelf" "a/b/c" [r.2, r'.2]])
  | _ => false

/-- **Different keys with one text**: two boxes on two shelves are reported as duplicates, since
their keys cannot be told apart any more when they are joined. -/
theorem slashes_reported : ∃ s t r r', slashes.Prepares {} 1 s ∧ t ∈ s.schemas.values ∧
    s.placedRows t = [r, r'] ∧ t.rowKey? r.1 = some ⟨some "a/b", "c"⟩ ∧
    t.rowKey? r'.1 = some ⟨some "a", "b/c"⟩ ∧
    ((Check.tableKeys s slashes t).run.run {}).1 =
      .ok [.duplicateKey "Shelf" "a/b/c" [r.2, r'.2]] := by
  obtain ⟨s, hs, hp⟩ := slashes.exists_prepares {} (p := fun s =>
    s.schemas.values.any (confusesBoxes s)) (by decide +kernel) 1
  obtain ⟨t, ht, hp⟩ := List.any_eq_true.1 hp
  unfold confusesBoxes at hp
  split at hp
  · rename_i r r' hrows
    simp only [Bool.and_eq_true, decide_eq_true_eq] at hp
    obtain ⟨⟨hr, hr'⟩, hfound⟩ := hp
    refine ⟨s, t, r, r', hs, ht, hrows, hr, hr', ?_⟩
    rw [((Check.plain_tableKeys s slashes t).run (Memory.meets_empty _)).1]
    exact Except.toOption_eq_some_iff.1 hfound
  · cases hp

end Workbook

end TypedSheets
