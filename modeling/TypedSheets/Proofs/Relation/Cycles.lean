import TypedSheets.Proofs.Recall.Notes
import TypedSheets.Proofs.Relation.Roots

/-!
# Cycles of relations

What a silent check of relation types has found out about the expansions of annotations: every
relation leads to a column, and no chain of relations that stand by themselves comes back. A column
that comes back to itself through a container is not found out; its expansion is infinite, and the
casts of its cells may go on without end. Without such a column they come to an end.

## Main definitions

* `Session.Annotates` — the annotations of columns and constants.
* `Session.Canonical` — they are canonical texts.

## Main results

* `Session.expands_of_relationTypes` — expansions and casts behind a silent check.
* `Check.relationTypes_lists` — a column of lists of itself passes the check.
-/

namespace TypedSheets

open Recall
open Relation (TransGen)

namespace Session

/-- The annotations of columns and constants. -/
def Annotates (s : Session) (e : TypeExpr) : Prop :=
  (∃ c ∈ s.schemas.columns, c.expr = e) ∨
    ∃ k ∈ s.defs.consts.values, TypeExpr.parse k.type = .ok e

/-- Columns and constants are annotated with canonical texts. -/
structure Canonical (s : Session) : Prop where
  schemas : s.schemas.Canonical
  consts : ∀ k ∈ s.defs.consts.values, ∀ e, TypeExpr.parse k.type = .ok e → k.type = e.text

variable {s : Session} {w : Workbook}

theorem Annotates.isWellFormed {e : TypeExpr} (h : s.Annotates e) : e.isWellFormed = true := by
  rcases h with ⟨c, -, rfl⟩ | ⟨k, -, hk⟩
  · exact TypeExpr.isWellFormed_of_parse c.parses
  · exact TypeExpr.isWellFormed_of_parse hk

end Session

/-- A relation that passes its check leads to a column. -/
theorem Schemas.leadsTo_of_checkTarget {ss : Schemas} {t : Target}
    (h : ss.checkTarget t = .ok ()) : ∃ c, ss.LeadsTo t c := by
  unfold checkTarget at h
  dsimp only at h
  split at h
  · cases h
  · rename_i schema hschema
    split at h
    · cases h
    · rename_i hkey
      split at h
      · rename_i hcolumn
        cases hk : schema.key? with
        | none =>
          rw [hk] at hkey
          exact absurd rfl hkey
        | some c =>
          refine ⟨c, linked_iff.1 ?_⟩
          simp only [linked, hschema, hcolumn, hk]
      · rename_i name hname
        split at h
        · rename_i hcontains
          obtain ⟨c, hc⟩ := Option.isSome_iff_exists.1 hcontains
          exact ⟨c, .column hschema hname hc⟩
        · cases h

namespace Check

variable {s : Session} {w : Workbook} {m : Memory}

/-- What a silent check has found out about the annotation of each column and constant. -/
theorem typeFaults_of_report (hm : m.Meets s.exact)
    (h : ((relationTypes.report s w).run m).1 = .ok []) :
    (∀ c ∈ s.schemas.columns, Gives s.exact (typeFaults s c.type).run (.ok [])) ∧
      ∀ k ∈ s.defs.consts.values, Gives s.exact (typeFaults s k.type).run (.ok []) := by
  have hrespects : s.Respects s.exact := fun r => (s.plain_respond r).keeps
  have hmem : relationTypes ∈ Check.all := by simp [Check.all]
  have hitems := silent_items (w := w) ⟨m, hm, h⟩ (keeps_items hrespects hmem)
  obtain ⟨hcolumns, hconsts⟩ := gives_of_relationTypes hrespects hitems
  refine ⟨fun c hc => ?_, hconsts⟩
  obtain ⟨t, ht, hc⟩ := List.mem_flatMap.1 hc
  exact hcolumns t ht c hc

/-- No column comes back to itself through relations that stand by themselves, if the check of
relation types is silent. -/
theorem not_transGen_follows (hm : m.Meets s.exact)
    (h : ((relationTypes.report s w).run m).1 = .ok []) (hcanonical : s.schemas.Canonical)
    (c : SchemaColumn) : ¬ TransGen s.schemas.Follows c c := by
  intro hcycle
  obtain ⟨b, -, -, t, -, hlast⟩ := TransGen.tail'_iff.1 hcycle
  obtain ⟨c', ⟨-, t', ht', -⟩, -⟩ := TransGen.head'_iff.1 hcycle
  have hrespects : s.Respects s.exact := fun r => (s.plain_respond r).keeps
  have hI := s.defs.remembers_computed fun table column texts => texts = s.columnTexts table column
  obtain ⟨e, hparse, -, hroot⟩ :=
    exists_of_typeFaults hrespects ((typeFaults_of_report hm h).1 c hlast.mem_columns)
  cases c.parses.symm.trans hparse
  have hne : c.expr.relations ≠ [] := by
    cases he : c.expr with
    | relation f t => exact List.cons_ne_nil _ _
    | _ =>
      rw [he] at ht'
      cases ht'
  obtain ⟨root, hroot⟩ := hroot hne
  have hroot := hroot.ensured (Definitions.transparent_rootType hI.toRemembersNames c.type)
  rw [Schemas.rootType, fresh_remember] at hroot
  have hroot := Definitions.eq_ok_of_ofExcept hroot.symm
  obtain ⟨es, ls, last, hchain, -⟩ := (Schemas.rootFrom_ok_iff hcanonical
    (TypeExpr.isWellFormed_of_parse c.parses) (hcanonical.eq_text hlast)).1 hroot
  have hacc := hchain.acc (c := c) (fun e he => by cases he; rfl) fun e he => by cases he; rfl
  exact not_transGen_of_acc hacc hcycle

end Check

namespace Session

variable {s : Session} {w : Workbook} {m : Memory}

/-- **Expansions and casts behind a silent check** of relation types. Every relation leads to a
column. All expansions are finite just if no column comes back to itself. With canonical annotations
no column comes back to itself through relations that stand by themselves. If none comes back to
itself through containers either, and calls are not nested, no cast of a cell goes on without end,
whatever is remembered. -/
theorem expands_of_relationTypes (hm : m.Meets s.exact)
    (h : ((Check.relationTypes.report s w).run m).1 = .ok []) :
    (∀ e, s.Annotates e → ∀ t ∈ e.relations, ∃ c, s.schemas.LeadsTo t c) ∧
    ((∀ e, s.Annotates e → s.schemas.Expands e) ↔ ∀ c, ¬ TransGen s.schemas.Opens c c) ∧
    (s.Canonical → (∀ c, ¬ TransGen s.schemas.Follows c c) ∧
      ((∀ c, ¬ TransGen s.schemas.Opens c c) → s.defs.Unnested →
        ∀ e, s.Annotates e → ∀ cell (m' : Memory), m'.Meets s.exact →
          ((s.defs.cast e.text cell).run.run m').1 ≠ .error .endless)) := by
  have hrespects : s.Respects s.exact := fun r => (s.plain_respond r).keeps
  obtain ⟨hcolumns, hconsts⟩ := Check.typeFaults_of_report hm h
  have hleads (e : TypeExpr) (he : s.Annotates e) :
      ∀ t ∈ e.relations, ∃ c, s.schemas.LeadsTo t c := by
    have hfaults : Check.targetFaults s.schemas e = [] := by
      rcases he with ⟨c, hc, rfl⟩ | ⟨k, hk, hparse⟩
      · obtain ⟨e, hparse, hnil, -⟩ := Check.exists_of_typeFaults hrespects (hcolumns c hc)
        cases c.parses.symm.trans hparse
        exact hnil
      · obtain ⟨e, hparse', hnil, -⟩ := Check.exists_of_typeFaults hrespects (hconsts k hk)
        cases hparse.symm.trans hparse'
        exact hnil
    exact fun t ht =>
      Schemas.leadsTo_of_checkTarget (Check.checkTarget_of_targetFaults hfaults t ht)
  have hopens (c : SchemaColumn) (hc : c ∈ s.schemas.columns) :
      ∀ t ∈ c.expr.opened, ∃ c', s.schemas.LeadsTo t c' :=
    fun t ht => hleads c.expr (.inl ⟨c, hc, rfl⟩) t (TypeExpr.mem_relations_of_opened ht)
  have hexpands : (∀ e, s.Annotates e → s.schemas.Expands e) ↔
      ∀ c, ¬ TransGen s.schemas.Opens c c := by
    rw [← Schemas.forall_expands_iff hopens]
    refine ⟨fun h c hc => h _ (.inl ⟨c, hc, rfl⟩), fun h e he => ?_⟩
    refine Schemas.expands_iff.2 fun t ht => ?_
    obtain ⟨c, hc⟩ := hleads e he t (TypeExpr.mem_relations_of_opened ht)
    exact ⟨c, hc, Schemas.expands_unkeyed.2 (h c hc.mem_columns)⟩
  refine ⟨hleads, hexpands, fun hcanonical => ⟨fun c hcycle => ?_, fun hopens hcalls e he => ?_⟩⟩
  · exact Check.not_transGen_follows hm h hcanonical.schemas c hcycle
  · have hconsts' : ∀ k ∈ s.defs.consts.values, ∃ e, e.isWellFormed = true ∧ k.type = e.text ∧
        s.schemas.Expands e := by
      intro k hk
      obtain ⟨e, hparse, -⟩ := Check.exists_of_typeFaults hrespects (hconsts k hk)
      exact ⟨e, TypeExpr.isWellFormed_of_parse hparse, hcanonical.consts k hk e hparse,
        hexpands.2 hopens e (.inr ⟨k, hk, hparse⟩)⟩
    intro cell m' hm'
    have hplain := (Definitions.plain_cast e.text cell).run hm'
    rw [hplain.1]
    exact Definitions.cast_ends_of_expands hcanonical.schemas hcalls hconsts' he.isWellFormed
      (hexpands.2 hopens e he) cell

/-- A function that is called with a use of a node. -/
def visit : Prototype where
  name := "Visit"
  params := [{ name := "node", type := "$Use" }]

/-- A constant that is a node behind a node. -/
def home : Constant where
  location := ⟨"node.xlsx", "Node", none⟩
  table := "Node"
  name := "Home"
  type := "$Node.Next"
  scope := .common
  value := .text "1"

/-- A session of nodes and uses of nodes, with a function and a constant. -/
def visits : Session where
  defs := { schemas := .nodes, prototypes := .ofList [("Visit", visit)], consts := .ofList [home] }

/-- The columns of nodes and of uses of nodes lead to the numbers of nodes. -/
theorem expandsInto_nodes {leaf : Primitive → Prop} (h : leaf .int32) :
    ∀ c ∈ Schemas.nodes.columns, Schemas.nodes.ExpandsInto leaf c.expr.unkeyed := by
  have hid : Schemas.nodes.ExpandsInto leaf Schemas.nodeId.expr.unkeyed := .primitive _ h
  have hnext : Schemas.nodes.ExpandsInto leaf Schemas.nodeNext.expr.unkeyed :=
    .relation _ (.primaryKey rfl rfl rfl rfl) hid
  have huse : Schemas.nodes.ExpandsInto leaf Schemas.useNode.expr.unkeyed :=
    .relation _ (.column rfl rfl rfl) hnext
  have hcolumns : Schemas.nodes.columns =
      [Schemas.nodeId, Schemas.nodeNext, Schemas.useNode] := rfl
  rw [hcolumns, List.forall_mem_cons, List.forall_mem_cons, List.forall_mem_singleton]
  exact ⟨hid, hnext, huse⟩

theorem unnested_visits : visits.defs.Unnested := by
  intro p hp q hq
  cases List.mem_singleton.1 hp
  cases List.mem_singleton.1 hq
  refine ⟨.relation {} ⟨"Use", none⟩, by decide, by decide, ?_⟩
  have hleads : Schemas.nodes.LeadsTo ⟨"Use", none⟩ Schemas.useNode := .groupKey rfl rfl rfl
  exact .relation _ hleads (expandsInto_nodes (by decide) _ hleads.mem_columns)

/-- Nodes that refer to the nodes behind them pass the check, and the casts of uses of nodes come to
an end. -/
theorem expands_of_relationTypes_nodes :
    ((Check.relationTypes.report visits {}).run {}).1 = .ok [] ∧
      ∀ cell, ((visits.defs.cast Schemas.useNode.expr.text cell).run.run {}).1 ≠
        .error .endless := by
  have hreport : ((Check.relationTypes.report visits {}).run {}).1 = .ok [] := by
    rw [fst_run_empty]
    decide +kernel
  have hempty : ({} : Memory).Meets visits.exact := Memory.meets_empty _
  have hhome : TypeExpr.parse home.type = .ok (.relation {} ⟨"Node", some "Next"⟩) := by
    decide +kernel
  have hcanonical : visits.Canonical := by
    constructor
    · unfold Schemas.Canonical
      decide +kernel
    · intro k hk e he
      cases List.mem_singleton.1 hk
      cases hhome.symm.trans he
      decide
  obtain ⟨-, hexpands, hends⟩ := expands_of_relationTypes hempty hreport
  obtain ⟨-, hends⟩ := hends hcanonical
  have hcolumns : ∀ c ∈ Schemas.nodes.columns, Schemas.nodes.Expands c.expr :=
    fun c hc => Schemas.expands_unkeyed.1 (expandsInto_nodes trivial c hc)
  have hacyclic := hexpands.1 fun e he => by
    rcases he with ⟨c, hc, rfl⟩ | ⟨k, hk, he⟩
    · exact hcolumns c hc
    · cases List.mem_singleton.1 hk
      cases hhome.symm.trans he
      have hleads : Schemas.nodes.LeadsTo ⟨"Node", some "Next"⟩ Schemas.nodeNext :=
        .column rfl rfl rfl
      exact .relation _ hleads (expandsInto_nodes trivial _ hleads.mem_columns)
  have hmem : Schemas.useNode ∈ Schemas.nodes.columns :=
    .tail _ (.tail _ (.head _))
  exact ⟨hreport, fun cell =>
    hends hacyclic unnested_visits _ (.inl ⟨_, hmem, rfl⟩) cell {} hempty⟩

end Session

/-! ### A cycle that the check does not find out -/

/-- The cast of a text with one element goes on without end if that of the element does. -/
theorem Definitions.endless_of_element {I : Condition} {d : Definitions} (hI : d.RemembersNames I)
    {trail : Trail} {n : Nat} {type s : String} {f : Flags} {e : TypeExpr}
    (hstored : d.StoredAs type (.array f e)) (hnormal : (Cell.text s).normalize = .text s)
    (hlink : (Cell.text s).constRef? = none) (hone : splitElements s.toList = [s.toList])
    (h : d.values trail n (e.text, .text s) = .error .endless) :
    d.values trail (n + 1) (type, .text s) = .error .endless := by
  obtain ⟨root, hroot, hparse⟩ := hstored
  have hsettle : (d.settle type (.text s)).run.fresh = .ok (.text s) :=
    fresh_settle_text hroot hparse nofun hnormal
  have hnull : (Cell.text s).isNull = false := by
    cases hn : Cell.isNullText s.toList with
    | true =>
      rw [Cell.normalize, if_pos hn] at hnormal
      cases hnormal
    | false => exact hn
  rw [values_of_plain hI hlink, plainValue_of_ok hsettle, valueWith, fresh_castPlain hroot hparse]
  show (castArray _ root e (.text s)).run.fresh = _
  rw [castArray, hnull]
  simp only [Cell.display, hone, List.mapM_cons, List.mapM_nil, String.ofList_toList,
    Bool.false_eq_true, if_false]
  change (Value.array <$> ExceptT.adapt (nestIn s root)
    (ExceptT.mk (.done (d.values trail n (e.text, .text s))) >>= _) : Attempt Value).run.fresh = _
  rw [h]
  rfl

/-- The nodes behind a node, each given by those behind it. -/
def Schemas.nodeList : SchemaColumn :=
  .ofExpr "Next" (.array {} (.relation {} ⟨"Node", some "Next"⟩)) (by decide)

/-- A session with the given tables and nothing else. -/
def Session.ofSchemas (ss : Schemas) : Session where
  defs := { schemas := ss }

/-- A table of nodes that hold lists of what nodes hold. -/
def Schemas.nodeLists : Schemas := .ofList [("Node", tableOf "Node" [nodeId, nodeList])]

/-- **A column of lists of itself passes the check** of relation types, although its expansion is
infinite and the cast of a cell of it goes on without end. -/
theorem Check.relationTypes_lists :
    let s := Session.ofSchemas .nodeLists
    s.Canonical ∧ ((relationTypes.report s {}).run {}).1 = .ok [] ∧
      s.Annotates Schemas.nodeList.expr ∧ ¬ s.schemas.Expands Schemas.nodeList.expr ∧
      ∀ depth, (s.defs.castFrom depth [] Schemas.nodeList.type (.text "x")).run.fresh =
        .error .endless := by
  intro s
  have hleads : s.schemas.LeadsTo ⟨"Node", some "Next"⟩ Schemas.nodeList := .column rfl rfl rfl
  have hcanonical : s.schemas.Canonical := by
    unfold Schemas.Canonical
    decide +kernel
  have hI := (s.defs.remembers_computed Definitions.anyTexts).toRemembersNames
  have hlist : s.defs.StoredAs Schemas.nodeList.type Schemas.nodeList.expr := by
    refine ⟨_, ?_, Schemas.nodeList.parses⟩
    refine (Schemas.rootFrom_ok_iff hcanonical (e := Schemas.nodeList.expr) (by decide) rfl).2 ?_
    exact (Schemas.endsIn_of_ends (.inr rfl)).2 rfl
  have helement : s.defs.StoredAs "$Node.Next" Schemas.nodeList.expr := by
    refine ⟨_, ?_, Schemas.nodeList.parses⟩
    refine (Schemas.rootFrom_ok_iff hcanonical
      (e := .relation {} ⟨"Node", some "Next"⟩) (by decide) rfl).2 ?_
    exact ⟨[_], [_], _, .link rfl rfl hleads (.stop (.inr rfl)), by decide,
      fun l _ => List.not_mem_nil, rfl⟩
  have hendless (n : Nat) : s.defs.values [] n ("$Node.Next", .text "x") = .error .endless := by
    induction n with
    | zero => rfl
    | succ n ih => exact Definitions.endless_of_element hI helement rfl rfl rfl ih
  refine ⟨⟨hcanonical, fun k hk => absurd hk List.not_mem_nil⟩, ?_, ?_, ?_, fun depth => ?_⟩
  · rw [fst_run_empty]
    decide +kernel
  · exact .inl ⟨_, .tail _ (.head _), rfl⟩
  · intro h
    exact h.not_transGen (.single ⟨_, List.mem_singleton.2 rfl, hleads⟩)
  · cases depth with
    | zero => rfl
    | succ n => exact Definitions.endless_of_element hI hlist rfl rfl rfl (hendless n)

end TypedSheets
