import TypedSheets.Proofs.Recall.Ensures
import TypedSheets.Proofs.TypeExpr.Inner

/-!
# Chains of relations

A relation leads to a column, whose type may be a relation again. The root type of an annotation is
told from the chain that starts at it, without the texts that the chain is computed by: it exists
just if the chain comes to an end before it passes a column twice, and it is then the type at the
end, without the marks that are not stored, and nullable if anything on the chain is.

## Main definitions

* `Schemas.Canonical` — columns are annotated with canonical texts.
* `Schemas.LeadsTo` — the column a relation leads to.
* `Schemas.Chain` — a chain from an annotation to its end, with the columns that it passes.
* `TypeExpr.stored` — what is stored at the end of a chain.

## Main results

* `Schemas.linked_iff` — the column a relation leads to is the one that is looked up.
* `Schemas.rootFrom_ok_iff` — which root type an annotation has.
* `Schemas.rootType_chain` — the root types that a session gives, whatever it remembers.
-/

namespace TypedSheets

namespace TypeExpr

/-- A chain of relations goes no further than this annotation. -/
def Ends (e : TypeExpr) : Prop :=
  e.sequence = true ∨ e.relation? = none

/-- What is stored under an annotation at the end of a chain: an integer for a sequence, else the
type without its marks but the nullable one. -/
def stored (e : TypeExpr) (nullable : Bool) : TypeExpr :=
  if e.sequence then .primitive { nullable } .int32 else e.withFlags { nullable }

theorem isWellFormed_unkeyed {e : TypeExpr} (h : e.isWellFormed = true) :
    e.unkeyed.isWellFormed = true := by
  rwa [unkeyed, isWellFormed_withFlags]

/-- A nullable mark on what is stored. -/
theorem makeNullable_stored {e : TypeExpr} (h : e.isWellFormed = true) (nullable : Bool) :
    makeNullable (e.stored nullable).text = (e.stored true).text := by
  have hkey : ({ nullable } : Flags).key = .none := rfl
  cases hs : e.sequence with
  | true =>
    simp only [stored, hs, if_true]
    exact makeNullable_text (e := .primitive {} .int32) rfl hkey
  | false =>
    simp only [stored, hs, Bool.false_eq_true, if_false]
    exact makeNullable_text h hkey

end TypeExpr

/-- A column of a well-formed type, annotated with its canonical text. -/
def SchemaColumn.ofExpr (name : String) (e : TypeExpr) (h : e.isWellFormed = true) :
    SchemaColumn where
  name := name
  type := e.text
  expr := e
  scope := .common
  inherited := false
  parses := TypeExpr.parse_text h

namespace Schemas

variable {ss : Schemas}

/-- Every column is annotated with the canonical text of its type. -/
def Canonical (ss : Schemas) : Prop :=
  ∀ s ∈ ss.values, ∀ c ∈ s.columns.values, c.type = c.expr.text

/-- A relation leads to the column that it names, or else to the group key of its table, or else to
the primary key. -/
inductive LeadsTo (ss : Schemas) (t : Target) (c : SchemaColumn) : Prop
  | column {s : Schema} {name : String} (table : ss.find? t.table = some s)
      (named : t.column = some name) (found : s.columns.find? name = some c)
  | groupKey {s : Schema} (table : ss.find? t.table = some s) (unnamed : t.column = none)
      (found : s.groupKey? = some c)
  | primaryKey {s : Schema} (table : ss.find? t.table = some s) (unnamed : t.column = none)
      (absent : s.groupKey? = none) (found : s.primaryKey? = some c)

/-- The annotations of a chain from its start to its end, and the columns between them by table and
name. The annotation behind a column is that of the column without the mark of a key. -/
inductive Chain (ss : Schemas) : List TypeExpr → List (String × String) → TypeExpr → Prop
  | stop {e : TypeExpr} (ends : e.Ends) : Chain ss [e] [] e
  | link {e last : TypeExpr} {t : Target} {c : SchemaColumn} {es : List TypeExpr}
      {ls : List (String × String)} (through : e.sequence = false) (relation : e.relation? = some t)
      (leads : ss.LeadsTo t c) (rest : Chain ss (c.expr.unkeyed :: es) ls last) :
      Chain ss (e :: c.expr.unkeyed :: es) ((t.table, c.name) :: ls) last

/-! ### One link -/

/-- The column a relation leads to is the one that is looked up. -/
theorem linked_iff {t : Target} {c : SchemaColumn} : ss.linked t = .ok c ↔ ss.LeadsTo t c := by
  constructor
  · intro h
    unfold linked at h
    split at h
    · cases h
    · rename_i s hs
      split at h
      · rename_i name hname
        split at h
        · rename_i hc
          cases h
          exact .column hs hname hc
        · cases h
      · rename_i hname
        split at h
        · rename_i hk
          cases h
          rcases Option.or_eq_some_iff.1 hk with hk | ⟨hnone, hk⟩
          · exact .groupKey hs hname hk
          · exact .primaryKey hs hname hnone hk
        · cases h
  · intro h
    cases h with
    | column hs hname hc => simp only [linked, hs, hname, hc]
    | groupKey hs hname hk => simp only [linked, hs, hname, Schema.key?, hk, Option.some_or]
    | primaryKey hs hname hnone hk =>
      simp only [linked, hs, hname, Schema.key?, hnone, hk, Option.none_or]

/-- A relation leads to one column only. -/
theorem LeadsTo.unique {t : Target} {c c' : SchemaColumn} (h : ss.LeadsTo t c)
    (h' : ss.LeadsTo t c') : c = c' :=
  Except.ok.inj ((linked_iff.2 h).symm.trans (linked_iff.2 h'))

/-- What is wrong with a relation that leads nowhere is a faulty reference. -/
theorem errorsIn_linked (t : Target) :
    (ss.linked t).ErrorsIn fun f => ∃ detail, f = .reference detail := by
  unfold linked
  split
  · exact .error ⟨_, rfl⟩
  · split
    · split
      · exact .ok _
      · exact .error ⟨_, rfl⟩
    · split
      · exact .ok _
      · exact .error ⟨_, rfl⟩

theorem Canonical.eq_text (h : ss.Canonical) {t : Target} {c : SchemaColumn}
    (hc : ss.LeadsTo t c) : c.type = c.expr.text := by
  obtain ⟨s, hs, hmem⟩ := exists_mem_of_linked (linked_iff.2 hc)
  exact h s (Keyed.mem_values_of_find? hs) c hmem

/-- The text that a chain goes on with is the canonical text of the annotation behind a column. -/
theorem Canonical.nake_key (h : ss.Canonical) {t : Target} {c : SchemaColumn}
    (hc : ss.linked t = .ok c) : nake .key c.type = c.expr.unkeyed.text := by
  rw [h.eq_text (linked_iff.1 hc)]
  exact TypeExpr.nake_key (TypeExpr.isWellFormed_of_parse c.parses)

/-! ### Whole chains -/

/-- A chain that starts at its end has no links. -/
theorem Chain.of_ends {e last : TypeExpr} {es : List TypeExpr} {ls : List (String × String)}
    (h : ss.Chain (e :: es) ls last) (he : e.Ends) : es = [] ∧ ls = [] ∧ last = e := by
  cases h with
  | stop => exact ⟨rfl, rfl, rfl⟩
  | link through relation =>
    rcases he with he | he
    · rw [through] at he
      cases he
    · rw [relation] at he
      cases he

/-- A chain that starts at a relation goes through the column that the relation leads to. -/
theorem Chain.of_relation {e last : TypeExpr} {t : Target} {es : List TypeExpr}
    {ls : List (String × String)} (h : ss.Chain (e :: es) ls last) (hs : e.sequence = false)
    (ht : e.relation? = some t) :
    ∃ c es' ls', ss.LeadsTo t c ∧ es = c.expr.unkeyed :: es' ∧ ls = (t.table, c.name) :: ls' ∧
      ss.Chain (c.expr.unkeyed :: es') ls' last := by
  cases h with
  | stop ends =>
    rcases ends with he | he
    · rw [hs] at he
      cases he
    · rw [ht] at he
      cases he
  | link through relation leads rest =>
    cases ht.symm.trans relation
    exact ⟨_, _, _, leads, rfl, rfl, rest⟩

/-- The chain from an annotation ends at what is stored as `root`, and passes no link twice and none
of the given ones. -/
def EndsIn (ss : Schemas) (visited : List (String × String)) (e : TypeExpr) (root : String) :
    Prop :=
  ∃ es ls last, ss.Chain (e :: es) ls last ∧ ls.Nodup ∧ (∀ l ∈ ls, l ∉ visited) ∧
    root = (last.stored ((e :: es).any TypeExpr.nullable)).text

variable {visited : List (String × String)} {e : TypeExpr} {root : String}

/-- A chain that starts at its end. -/
theorem endsIn_of_ends (he : e.Ends) :
    ss.EndsIn visited e root ↔ root = (e.stored e.nullable).text := by
  constructor
  · rintro ⟨es, ls, last, hchain, -, -, rfl⟩
    obtain ⟨rfl, -, rfl⟩ := hchain.of_ends he
    rw [List.any_cons, List.any_nil, Bool.or_false]
  · rintro rfl
    refine ⟨[], [], e, .stop he, List.nodup_nil, fun l hl => absurd hl List.not_mem_nil, ?_⟩
    rw [List.any_cons, List.any_nil, Bool.or_false]

/-- The end of a chain is well-formed if its start is. -/
theorem Chain.isWellFormed_last {es : List TypeExpr} {ls : List (String × String)}
    {last : TypeExpr} (h : ss.Chain es ls last) (hes : ∀ a ∈ es.head?, a.isWellFormed = true) :
    last.isWellFormed = true := by
  induction h with
  | stop ends => exact hes _ rfl
  | @link e last t c es ls through relation leads rest ih =>
    refine ih fun a ha => ?_
    cases ha
    exact TypeExpr.isWellFormed_unkeyed (TypeExpr.isWellFormed_of_parse c.parses)

/-- A chain that starts at a relation: the rest of it starts behind the column that the relation
leads to, and has passed that column. -/
theorem endsIn_of_relation {t : Target} {c : SchemaColumn} (hs : e.sequence = false)
    (ht : e.relation? = some t) (hc : ss.linked t = .ok c) :
    ss.EndsIn visited e root ↔ (t.table, c.name) ∉ visited ∧
      ∃ inner, ss.EndsIn (visited ++ [(t.table, c.name)]) c.expr.unkeyed inner ∧
        root = if e.nullable then makeNullable inner else inner := by
  have hwell : c.expr.unkeyed.isWellFormed = true :=
    TypeExpr.isWellFormed_unkeyed (TypeExpr.isWellFormed_of_parse c.parses)
  -- The nullable mark of `e` comes onto what the rest of the chain is stored as.
  have hmark {es : List TypeExpr} {ls : List (String × String)} {last : TypeExpr}
      (hrest : ss.Chain (c.expr.unkeyed :: es) ls last) (n : Bool) :
      (last.stored (e.nullable || n)).text =
        if e.nullable then makeNullable (last.stored n).text else (last.stored n).text := by
    have hlast := hrest.isWellFormed_last fun a ha => by cases ha; exact hwell
    cases e.nullable with
    | true => exact (TypeExpr.makeNullable_stored hlast n).symm
    | false => rfl
  constructor
  · rintro ⟨es, ls, last, hchain, hnodup, hnew, rfl⟩
    obtain ⟨c', es', ls', hleads, rfl, rfl, hrest⟩ := hchain.of_relation hs ht
    cases hc.symm.trans (linked_iff.2 hleads)
    rw [List.nodup_cons] at hnodup
    rw [List.forall_mem_cons] at hnew
    refine ⟨hnew.1, _, ⟨es', ls', last, hrest, hnodup.2, fun l hl => ?_, rfl⟩, ?_⟩
    · rw [List.mem_append, List.mem_singleton, not_or]
      refine ⟨hnew.2 l hl, ?_⟩
      rintro rfl
      exact hnodup.1 hl
    · rw [List.any_cons]
      exact hmark hrest _
  · rintro ⟨hfirst, inner, ⟨es, ls, last, hrest, hnodup, hnew, rfl⟩, rfl⟩
    have hnew' (l : String × String) (hl : l ∈ ls) : l ∉ visited ∧ l ≠ (t.table, c.name) := by
      have hl := hnew l hl
      rwa [List.mem_append, List.mem_singleton, not_or] at hl
    refine ⟨_, _, last, .link hs ht (linked_iff.1 hc) hrest, ?_, ?_, ?_⟩
    · exact List.nodup_cons.2 ⟨fun hl => (hnew' _ hl).2 rfl, hnodup⟩
    · exact List.forall_mem_cons.2 ⟨hfirst, fun l hl => (hnew' l hl).1⟩
    · rw [List.any_cons]
      exact (hmark hrest _).symm

/-- **Which root type an annotation has**, at the end of a chain that has passed the given links. -/
theorem rootFrom_ok_iff (hcanonical : ss.Canonical) {type : String} (he : e.isWellFormed = true)
    (htype : type = e.text) : ss.rootFrom visited type = .ok root ↔ ss.EndsIn visited e root := by
  have hparse : TypeExpr.parse type = .ok e := htype ▸ TypeExpr.parse_text he
  fun_induction rootFrom ss visited type generalizing e root with
  | case1 visited type f hfault =>
    rw [hfault] at hparse
    cases hparse
  | case2 visited type expr hexpr hsequence =>
    cases hexpr.symm.trans hparse
    have hint : (if expr.nullable then "int?" else "int") =
        (expr.stored expr.nullable).text := by
      simp only [TypeExpr.stored, hsequence, if_true]
      cases expr.nullable <;> rfl
    rw [endsIn_of_ends (.inl hsequence), ← hint, Except.ok.injEq, eq_comm]
  | case3 visited type expr hexpr hsequence hrelation =>
    cases hexpr.symm.trans hparse
    rw [endsIn_of_ends (.inr hrelation), Except.ok.injEq, eq_comm, htype,
      TypeExpr.nake_storedMask he hrelation, TypeExpr.stored, if_neg hsequence]
  | case4 visited type expr hexpr hsequence target hrelation f hfault =>
    cases hexpr.symm.trans hparse
    constructor
    · exact nofun
    · rintro ⟨es, ls, last, hchain, -⟩
      obtain ⟨c, -, -, hleads, -⟩ := hchain.of_relation (by simpa using hsequence) hrelation
      rw [linked_iff.2 hleads] at hfault
      cases hfault
  | case5 visited type expr hexpr hsequence target hrelation column hcolumn link =>
    rename_i hpassed
    cases hexpr.symm.trans hparse
    rw [endsIn_of_relation (by simpa using hsequence) hrelation hcolumn]
    constructor
    · exact nofun
    · rintro ⟨hnew, -⟩
      exact absurd hpassed hnew
  | case6 visited type expr hexpr hsequence target hrelation column hcolumn link hnew hlt =>
    rename_i ih
    cases hexpr.symm.trans hparse
    have hwell : column.expr.unkeyed.isWellFormed = true :=
      TypeExpr.isWellFormed_unkeyed (TypeExpr.isWellFormed_of_parse column.parses)
    have htext := hcanonical.nake_key hcolumn
    rw [endsIn_of_relation (by simpa using hsequence) hrelation hcolumn]
    have hrest (inner : String) : ss.rootFrom (visited ++ [link]) (nake .key column.type) =
        .ok inner ↔ ss.EndsIn (visited ++ [link]) column.expr.unkeyed inner :=
      ih hwell htext (htext ▸ TypeExpr.parse_text hwell)
    constructor
    · intro h
      obtain ⟨inner, hinner, rfl⟩ := Except.exists_of_map_ok h
      exact ⟨hnew, inner, (hrest inner).1 hinner, rfl⟩
    · rintro ⟨-, inner, hinner, rfl⟩
      rw [(hrest inner).2 hinner]
      rfl

/-- What is wrong with an annotation without a root type is a faulty reference, if the annotation of
every column that a relation leads to can be read without the mark of its key. -/
theorem errorsIn_rootFrom_of_parse
    (hreads : ∀ t c, ss.linked t = .ok c → ∃ e, TypeExpr.parse (nake .key c.type) = .ok e)
    {type : String} (hparse : TypeExpr.parse type = .ok e) :
    (ss.rootFrom visited type).ErrorsIn fun f => ∃ detail, f = .reference detail := by
  fun_induction rootFrom ss visited type generalizing e with
  | case1 visited type f hfault =>
    rw [hfault] at hparse
    cases hparse
  | case2 visited type expr hexpr hsequence => exact .ok _
  | case3 visited type expr hexpr hsequence hrelation => exact .ok _
  | case4 visited type expr hexpr hsequence target hrelation f hfault =>
    exact .error (errorsIn_linked target f hfault)
  | case5 visited type expr hexpr hsequence target hrelation column hcolumn link =>
    exact .error ⟨_, rfl⟩
  | case6 visited type expr hexpr hsequence target hrelation column hcolumn link hnew hlt =>
    rename_i ih
    obtain ⟨inner, hinner⟩ := hreads target column hcolumn
    exact (ih hinner).map

/-- What is wrong with a canonical text without a root type is a faulty reference. -/
theorem errorsIn_rootFrom (hcanonical : ss.Canonical) {type : String} (he : e.isWellFormed = true)
    (htype : type = e.text) :
    (ss.rootFrom visited type).ErrorsIn fun f => ∃ detail, f = .reference detail := by
  refine errorsIn_rootFrom_of_parse (fun t c hc => ⟨c.expr.unkeyed, ?_⟩)
    (htype ▸ TypeExpr.parse_text he)
  rw [hcanonical.nake_key hc]
  exact TypeExpr.parse_text
    (TypeExpr.isWellFormed_unkeyed (TypeExpr.isWellFormed_of_parse c.parses))

/-! ### Root types of a session -/

/-- The root types that are remembered are those that are computed. -/
def exactRoots (ss : Schemas) : Condition
  | .root type, root => ss.rootFrom [] type = .ok root
  | _, _ => True

theorem ensures_rootType (ss : Schemas) (type : String) :
    Recall.Ensures ss.exactRoots (ss.rootType type).run
      fun r => r = (ss.rootFrom [] type).mapError .failure := by
  constructor
  · cases h : ss.rootFrom [] type with
    | error f => rfl
    | ok root =>
      refine ⟨h, fun root' h' => ?_⟩
      cases h.symm.trans h'
      rfl
  · intro root h
    show Except.ok root = _
    rw [show ss.rootFrom [] type = .ok root from h]
    rfl

/-- **The root types that a session gives.** In schemas with canonical annotations, whatever root
types are remembered: an annotation has a root type just if the chain that starts at it comes to a
sequence, or to what is no relation, and passes no column twice on the way. The root type is then
the type at the end (an integer for a sequence) without the marks of keys, strong references and
sequences, and it is nullable just if some annotation of the chain is. In every other case the
failure is a faulty reference. -/
theorem rootType_chain (hcanonical : ss.Canonical) {e : TypeExpr} (he : e.isWellFormed = true)
    {m : Memory} (hm : m.Meets ss.exactRoots) :
    (∀ root, ((ss.rootType e.text).run.run m).1 = .ok root ↔
      ∃ es ls last, ss.Chain (e :: es) ls last ∧ ls.Nodup ∧
        root = (last.stored ((e :: es).any TypeExpr.nullable)).text) ∧
    (∀ h, ((ss.rootType e.text).run.run m).1 = .error h →
      ∃ detail, h = .failure (.reference detail)) ∧
    ((ss.rootType e.text).run.run m).2.Meets ss.exactRoots := by
  obtain ⟨hresult, hafter⟩ := (ensures_rootType ss e.text).run hm
  rw [hresult]
  refine ⟨fun root => ?_, fun h hh => ?_, hafter⟩
  · have hiff : ss.rootFrom [] e.text = .ok root ↔ _ := rootFrom_ok_iff hcanonical he rfl
    simp only [EndsIn, List.not_mem_nil, not_false_eq_true, implies_true, true_and] at hiff
    rw [← hiff]
    cases ss.rootFrom [] e.text <;> simp [Except.mapError]
  · cases hroot : ss.rootFrom [] e.text with
    | ok root =>
      rw [hroot] at hh
      cases hh
    | error f =>
      rw [hroot] at hh
      obtain ⟨detail, rfl⟩ := errorsIn_rootFrom hcanonical he rfl f hroot
      cases hh
      exact ⟨detail, rfl⟩

/-- A table with the given columns. -/
def tableOf (name : String) (columns : List SchemaColumn) : Schema where
  name := name
  based := none
  group := name
  columns := .ofList (columns.map fun c => (c.name, c))

/-- The number of a node. -/
def nodeId : SchemaColumn := .ofExpr "Id" (.primitive { key := .primary } .int32) rfl

/-- The node behind a node. -/
def nodeNext : SchemaColumn :=
  .ofExpr "Next" (.relation { nullable := true } ⟨"Node", none⟩) (by decide)

/-- The node that is used. -/
def useNode : SchemaColumn :=
  .ofExpr "Node" (.relation { key := .group } ⟨"Node", some "Next"⟩) (by decide)

/-- Tables of nodes and of uses of nodes. -/
def nodes : Schemas :=
  .ofList [("Node", tableOf "Node" [nodeId, nodeNext]), ("Use", tableOf "Use" [useNode])]

/-- A chain that passes the table of nodes twice, through two columns, is asked for twice; the
second answer is remembered. -/
theorem rootType_chain_nodes :
    let use := TypeExpr.relation { strong := true } ⟨"Use", none⟩
    let first := (nodes.rootType use.text).run.run {}
    let second := (nodes.rootType use.text).run.run first.2
    first.1 = .ok "int?" ∧ second.1 = .ok "int?" := by
  intro use first second
  have hcanonical : nodes.Canonical := by
    unfold Canonical
    decide +kernel
  have huse : nodes.LeadsTo ⟨"Use", none⟩ useNode := .groupKey rfl rfl rfl
  have hnext : nodes.LeadsTo ⟨"Node", some "Next"⟩ nodeNext := .column rfl rfl rfl
  have hid : nodes.LeadsTo ⟨"Node", none⟩ nodeId := .primaryKey rfl rfl rfl rfl
  have hchain : nodes.Chain (use :: [useNode.expr.unkeyed, nodeNext.expr.unkeyed,
      nodeId.expr.unkeyed]) [("Use", "Node"), ("Node", "Next"), ("Node", "Id")]
      nodeId.expr.unkeyed :=
    .link rfl rfl huse <| .link rfl rfl hnext <| .link rfl rfl hid <| .stop (.inr rfl)
  have hempty : ({} : Memory).Meets nodes.exactRoots := Memory.meets_empty _
  obtain ⟨hfirst, -, hmemory⟩ := rootType_chain hcanonical (e := use) (by decide) hempty
  obtain ⟨hsecond, -⟩ := rootType_chain hcanonical (e := use) (by decide) hmemory
  exact ⟨(hfirst _).2 ⟨_, _, _, hchain, by decide, rfl⟩,
    (hsecond _).2 ⟨_, _, _, hchain, by decide, rfl⟩⟩

end Schemas

end TypedSheets
