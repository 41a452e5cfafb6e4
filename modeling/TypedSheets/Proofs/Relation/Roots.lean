import TypedSheets.Proofs.Casting.Memory
import TypedSheets.Proofs.Relation.Expansion
import TypedSheets.Proofs.TypeExpr.Unkeying

/-!
# Relations to keys

A relation to a table stores what the primary key of the table stores, if the table has no group
key: whatever text its key is annotated with, the two root types are the same if there are both, and
so a cell that has a value under the relation and under the key has one value.

## Main results

* `Schemas.rootFrom_unique` — the links that a chain has passed change no root type.
* `Schemas.rootFrom_nake_key` — the mark of a primary key changes no root type.
* `Definitions.cast_unique` — a cell has one value under annotations with one root type.
* `Definitions.cast_eq_of_key` — a cell has one value under a key and under the relation to it.
-/

namespace TypedSheets

/-! ### Root types -/

namespace Schemas

variable {ss : Schemas}

/-- How an annotation comes to its root type. -/
inductive RootedAt (ss : Schemas) (visited : List (String × String)) (type : String) (e : TypeExpr)
    (root : String) : Prop
  /-- A sequence is stored as an integer. -/
  | sequence (hs : e.sequence = true) (hroot : root = if e.nullable then "int?" else "int")
  /-- What is no relation is stored as it is. -/
  | plain (hs : e.sequence = false) (hr : e.relation? = none) (hroot : root = nake storedMask type)
  /-- A relation is stored as the column that it leads to. -/
  | link {t : Target} {c : SchemaColumn} {inner : String} (hs : e.sequence = false)
    (hr : e.relation? = some t) (hc : ss.linked t = .ok c)
    (hnew : (t.table, c.name) ∉ visited)
    (hinner : ss.rootFrom (visited ++ [(t.table, c.name)]) (nake .key c.type) = .ok inner)
    (hroot : root = if e.nullable then makeNullable inner else inner)

theorem rootedAt_of_rootFrom {visited : List (String × String)} {type root : String}
    (h : ss.rootFrom visited type = .ok root) :
    ∃ e, TypeExpr.parse type = .ok e ∧ ss.RootedAt visited type e root := by
  rw [rootFrom] at h
  split at h
  · cases h
  · rename_i e hparse
    refine ⟨e, hparse, ?_⟩
    split at h
    · rename_i hs
      cases h
      exact .sequence hs rfl
    · rename_i hs
      have hs : e.sequence = false := by simpa using hs
      split at h
      · rename_i hr
        cases h
        exact .plain hs hr rfl
      · rename_i t hr
        split at h
        · cases h
        · rename_i c hc
          dsimp only at h
          split at h
          · cases h
          · rename_i hnew
            obtain ⟨inner, hinner, rfl⟩ := Except.exists_of_map_ok h
            exact .link hs hr hc hnew hinner rfl

/-- Two ways to a root type from annotations that agree in what the way depends on. -/
theorem RootedAt.eq_of_agree {visited visited' : List (String × String)} {type type' : String}
    {e e' : TypeExpr} {root root' : String} (h : ss.RootedAt visited type e root)
    (h' : ss.RootedAt visited' type' e' root') (hsequence : e'.sequence = e.sequence)
    (hnullable : e'.nullable = e.nullable) (hrelation : e'.relation? = e.relation?)
    (hstored : nake storedMask type' = nake storedMask type)
    (hinner : ∀ t c inner inner', ss.linked t = .ok c → (t.table, c.name) ∉ visited →
      ss.rootFrom (visited ++ [(t.table, c.name)]) (nake .key c.type) = .ok inner →
      ss.rootFrom (visited' ++ [(t.table, c.name)]) (nake .key c.type) = .ok inner' →
        inner = inner') : root = root' := by
  cases h with
  | sequence hs hroot =>
    cases h' with
    | sequence hs' hroot' => rw [hroot, hroot', hnullable]
    | plain hs' => cases hs'.symm.trans (hsequence.trans hs)
    | link hs' => cases hs'.symm.trans (hsequence.trans hs)
  | plain hs hr hroot =>
    cases h' with
    | sequence hs' => cases hs.symm.trans (hsequence.symm.trans hs')
    | plain hs' hr' hroot' => rw [hroot, hroot', hstored]
    | link hs' hr' => cases hr.symm.trans (hrelation.symm.trans hr')
  | link hs hr hc hnew hrest hroot =>
    cases h' with
    | sequence hs' => cases hs.symm.trans (hsequence.symm.trans hs')
    | plain hs' hr' => cases hr.symm.trans (hrelation.symm.trans hr')
    | link hs' hr' hc' hnew' hrest' hroot' =>
      cases hr.symm.trans (hrelation.symm.trans hr')
      cases hc.symm.trans hc'
      rw [hroot, hroot', hnullable, hinner _ _ _ _ hc hnew hrest hrest']

/-- **The links that a chain has passed change no root type**, if they leave it one. -/
theorem rootFrom_unique {visited visited' : List (String × String)} {type root root' : String}
    (h : ss.rootFrom visited type = .ok root) (h' : ss.rootFrom visited' type = .ok root') :
    root = root' := by
  induction hremaining : Walk.remaining ss.links visited using Nat.strongRecOn
    generalizing visited visited' type root root' with
  | ind n ih =>
    obtain ⟨e, hparse, hrooted⟩ := rootedAt_of_rootFrom h
    obtain ⟨e', hparse', hrooted'⟩ := rootedAt_of_rootFrom h'
    cases hparse.symm.trans hparse'
    refine hrooted.eq_of_agree hrooted' rfl rfl rfl rfl fun t c inner inner' hc hnew hi hi' => ?_
    have hlt := Walk.remaining_lt (mem_links_of_linked hc) hnew
      (fun _ hx => List.mem_append_left [(t.table, c.name)] hx)
      (List.mem_append_right visited (List.mem_singleton_self _))
    exact ih _ (hremaining ▸ hlt) hi hi' rfl

/-- **The mark of a primary key changes no root type**, if it leaves one without it. -/
theorem rootFrom_nake_key {visited visited' : List (String × String)} {type root root' : String}
    {e : TypeExpr} (hparse : TypeExpr.parse type = .ok e) (hkey : e.flags.key = .primary)
    (h : ss.rootFrom visited type = .ok root)
    (h' : ss.rootFrom visited' (nake .key type) = .ok root') : root = root' := by
  obtain ⟨e₀, hparse₀, hrooted⟩ := rootedAt_of_rootFrom h
  cases hparse.symm.trans hparse₀
  obtain ⟨e', hparse', hrooted'⟩ := rootedAt_of_rootFrom h'
  obtain rfl := TypeExpr.eq_unkeyed_of_parse hparse hkey hparse'
  exact hrooted.eq_of_agree hrooted' e.sequence_unkeyed e.nullable_unkeyed e.relation?_unkeyed
    (TypeExpr.nake_storedMask_nake_key hparse hkey) fun _ _ _ _ _ _ hi hi' => rootFrom_unique hi hi'

/-- The annotation of a link to a table is read as a relation to the table. -/
theorem parse_link {table : String} (hname : Text.isIdentifier table.toList = true) :
    TypeExpr.parse ("($" ++ table ++ ")") = .ok (.relation { key := .group } ⟨table, none⟩) := by
  let e : TypeExpr := .relation { key := .group } ⟨table, none⟩
  have htext : "($" ++ table ++ ")" = e.text := by
    apply String.toList_injective
    simp [e, TypeExpr.text, TypeExpr.chars, TypeExpr.mark, Target.text]
  have hwell : e.isWellFormed = true := by simpa [e, TypeExpr.isWellFormed, Target.isWellFormed]
  rw [htext, TypeExpr.parse_text hwell]

/-- **A relation to a table is stored as the primary key of the table**, if there is no group key.
-/
theorem rootFrom_link_eq {table : String} (hname : Text.isIdentifier table.toList = true)
    {t : Schema} (ht : ss.find? table = some t) (hgroup : t.groupKey? = none) {key : SchemaColumn}
    (hkey : t.primaryKey? = some key) {root root' : String}
    (h : ss.rootFrom [] key.type = .ok root)
    (h' : ss.rootFrom [] ("($" ++ table ++ ")") = .ok root') : root = root' := by
  obtain ⟨e', hparse, hrooted⟩ := rootedAt_of_rootFrom h'
  cases (parse_link hname).symm.trans hparse
  cases hrooted with
  | sequence hs => cases hs
  | plain hs hr => cases hr
  | link hs hr hc hnew hinner hroot =>
    cases hr
    cases linked_iff.1 hc with
    | column _ hcolumn => cases hcolumn
    | groupKey hfind _ hfound =>
      cases ht.symm.trans hfind
      cases hgroup.symm.trans hfound
    | primaryKey hfind _ _ hfound =>
      cases ht.symm.trans hfind
      cases hkey.symm.trans hfound
      have hprimary : key.expr.flags.key = .primary := by
        simpa [SchemaColumn.isPrimaryKey] using List.find?_some hkey
      rw [hroot]
      exact rootFrom_nake_key key.parses hprimary h hinner

/-- The root type of an annotation, with what it is read as. -/
def rootRead (ss : Schemas) (type : String) : Except Failure (String × TypeExpr) :=
  ss.rootFrom [] type >>= fun root => (TypeExpr.parse root).map (root, ·)

end Schemas

/-! ### Casts under one root type -/

namespace Definitions

open Recall

variable {d : Definitions} {type type' root : String} {cell : Cell} {v v' : Value}

theorem fresh_rootType (type : String) :
    (d.schemas.rootType type).run.fresh = (d.schemas.rootFrom [] type).mapError .failure :=
  (fresh_remember (.root type) _).trans (fresh_ofExcept _)

/-- What goes on with the root type of an annotation, and with what that is read as, comes to what
it comes to behind them. -/
theorem fresh_rootRead (d : Definitions) (type : String) {α : Type}
    (f : String → TypeExpr → Attempt α) :
    (d.schemas.rootType type >>= fun root =>
      Attempt.ofExcept (TypeExpr.parse root) >>= f root).run.fresh =
    (d.schemas.rootRead type).mapError .failure >>= fun p => (f p.1 p.2).run.fresh := by
  rw [fresh_bind_run, fresh_rootType, Schemas.rootRead]
  cases d.schemas.rootFrom [] type with
  | error f => rfl
  | ok root =>
    show (Attempt.ofExcept (TypeExpr.parse root) >>= f root).run.fresh =
      ((TypeExpr.parse root).map (root, ·)).mapError _ >>= _
    rw [fresh_bind_run, fresh_ofExcept]
    cases TypeExpr.parse root <;> rfl

section Stored

variable {expr : TypeExpr} (hroot : d.schemas.rootFrom [] type = .ok root)
  (hparse : TypeExpr.parse root = .ok expr)
include hroot hparse

/-- What goes on with a root type that is read comes to what it comes to behind it. -/
theorem fresh_stored {α : Type} (f : String → TypeExpr → Attempt α) :
    (d.schemas.rootType type >>= fun root =>
      Attempt.ofExcept (TypeExpr.parse root) >>= f root).run.fresh = (f root expr).run.fresh := by
  rw [fresh_rootRead, Schemas.rootRead, hroot]
  show ((TypeExpr.parse root).map (root, ·)).mapError _ >>= _ = _
  rw [hparse]
  rfl

/-- A settled cell is cast under the root type. -/
theorem fresh_castPlain (sub : String → Cell → Attempt Value) (cell : Cell) :
    (d.castPlain sub type cell).run.fresh = (d.castRoot sub root expr cell).run.fresh :=
  fresh_stored hroot hparse fun root expr => d.castRoot sub root expr cell

/-- A text without blanks at its ends is settled as it is under a type that is no string. -/
theorem fresh_settle_text {text : String} (hexpr : ∀ f, expr ≠ .primitive f .string)
    (hnormal : (Cell.text text).normalize = .text text) :
    (d.settle type (.text text)).run.fresh = .ok (.text text) := by
  have hstring : (d.hasStringRoot type).run.fresh = .ok false := by
    rw [hasStringRoot, fresh_stored hroot hparse]
    cases expr with
    | primitive f p =>
      cases p with
      | string => exact absurd rfl (hexpr f)
      | _ => rfl
    | _ => rfl
  simp only [settle, hnormal, fresh_bind_run, hstring]
  rfl

end Stored

/-- A cell is settled by what its root type is read as. -/
theorem fresh_settle_congr (h : d.schemas.rootRead type = d.schemas.rootRead type')
    (cell : Cell) : (d.settle type cell).run.fresh = (d.settle type' cell).run.fresh := by
  have hstring : (d.hasStringRoot type).run.fresh = (d.hasStringRoot type').run.fresh := by
    rw [hasStringRoot, hasStringRoot, fresh_rootRead, fresh_rootRead, h]
  unfold settle
  split
  · rw [fresh_bind_run, fresh_bind_run, hstring]
  · rfl

/-- A cell that refers to no constant is cast by what its root type is read as. -/
theorem plainValue_congr_root (h : d.schemas.rootRead type = d.schemas.rootRead type')
    (cell : Cell) (o : Slot → Except Halt Value) :
    d.plainValue (type, cell) o = d.plainValue (type', cell) o := by
  rw [plainValue, plainValue, fresh_settle_congr h]
  refine bind_congr fun cell => ?_
  rw [valueWith, valueWith, castPlain, castPlain, fresh_rootRead, fresh_rootRead, h]

/-- A value that refers to no constant has a root type. -/
theorem exists_root_of_plainValue {o : Slot → Except Halt Value}
    (h : d.plainValue (type, cell) o = .ok v) : ∃ root, d.schemas.rootFrom [] type = .ok root := by
  obtain ⟨c, hc⟩ := exists_of_plainValue h
  rw [plainValue_of_ok hc] at h
  unfold castPlain at h
  rw [valueWith_bind, valueWith_known, fresh_rootType] at h
  cases hroot : d.schemas.rootFrom [] type with
  | ok root => exact ⟨root, rfl⟩
  | error f =>
    rw [hroot] at h
    cases h

/-- **A cell has one value under annotations with one root type.** A cell that refers to a constant
has the value of the constant under both. -/
theorem cast_unique
    (hroot : ∀ root root', d.schemas.rootFrom [] type = .ok root →
      d.schemas.rootFrom [] type' = .ok root' → root = root')
    (h : (d.cast type cell).run.fresh = .ok v) (h' : (d.cast type' cell).run.fresh = .ok v') :
    v = v' := by
  have hI := (d.remembers_computed anyTexts).toRemembersNames
  obtain ⟨n, hn, hn'⟩ : ∃ n, d.freeValues (n + 1) (type, cell) = .ok v ∧
      d.freeValues (n + 1) (type', cell) = .ok v' := by
    have hvalue := freeValues_of_values hI (x := (type, cell)) h
    have hvalue' := freeValues_of_values hI (x := (type', cell)) h'
    exact ⟨max (d.depthBound type cell) (d.depthBound type' cell),
      (freeValues_grows hI).le (by omega) hvalue, (freeValues_grows hI).le (by omega) hvalue'⟩
  cases hlink : cell.constRef? with
  | some link =>
    cases hc : d.consts.find? link with
    | none =>
      rw [freeValues_of_undefined hlink hc] at hn
      cases hn
    | some constant =>
      rw [freeValues_of_link hlink hc] at hn hn'
      exact Except.ok.inj (hn.symm.trans hn')
  | none =>
    rw [freeValues_of_plain hlink] at hn hn'
    obtain ⟨root, hr⟩ := exists_root_of_plainValue hn
    obtain ⟨root', hr'⟩ := exists_root_of_plainValue hn'
    obtain rfl := hroot root root' hr hr'
    have hread : d.schemas.rootRead type = d.schemas.rootRead type' := by
      rw [Schemas.rootRead, Schemas.rootRead, hr, hr']
    rw [plainValue_congr_root hread] at hn
    exact Except.ok.inj (hn.symm.trans hn')

/-- **A cell has one value under the primary key of a table and under the relation to the table**,
if the table has no group key. -/
theorem cast_eq_of_key {table : String} (hname : Text.isIdentifier table.toList = true) {t : Schema}
    (ht : d.schemas.find? table = some t) (hgroup : t.groupKey? = none) {key : SchemaColumn}
    (hkey : t.primaryKey? = some key) (h : (d.cast key.type cell).run.fresh = .ok v)
    (h' : (d.cast ("($" ++ table ++ ")") cell).run.fresh = .ok v') : v = v' :=
  cast_unique (fun _ _ => Schemas.rootFrom_link_eq hname ht hgroup hkey) h h'

end Definitions

end TypedSheets
