import Mathlib.Data.Fintype.Card
import Mathlib.Data.Set.Finite.Basic
import TypedSheets.Proofs.Casting.Grounded
import TypedSheets.Proofs.Check.Relations

/-!
# Expanding relations

An annotation is expanded by putting the type of the column that a relation leads to in the place of
the relation, wherever it stands outside of sequences, and so on. The casts of a cell follow this
expansion inward, so they end if it does. The check of relation types follows only the relations
that stand by themselves; a column that comes back to itself through a container passes it.

## Main definitions

* `TypeExpr.opened` — the relations of an annotation that are expanded.
* `Schemas.ExpandsInto`, `Schemas.Expands` — the expansion of an annotation is finite, and all
  relations in it lead somewhere.
* `Schemas.Opens` — a column is put into the place of a relation of another one.

## Main results

* `Schemas.forall_expands_iff` — expansions are finite just if no column comes back to itself.
* `Definitions.wellFounded_encloses` — types do not recurse if no column comes back to itself.
-/

namespace TypedSheets

open Relation (TransGen)

/-- What leads to other things not without end does not lead back to itself. -/
theorem not_transGen_of_acc {α : Type} {r : α → α → Prop} {a : α}
    (h : Acc (fun x y => r y x) a) : ¬ TransGen r a a := by
  intro ha
  have hacc := h.transGen
  have hcycle : TransGen (fun x y => r y x) a a := Relation.transGen_swap.2 ha
  clear h ha
  induction hacc with
  | intro a _ ih => exact ih a hcycle hcycle

/-- The relations of an annotation that are expanded: those outside of sequences. -/
def TypeExpr.opened : TypeExpr → List Target
  | relation f t => if f.sequence then [] else [t]
  | array f e | geometry f _ e => if f.sequence then [] else e.opened
  | map f k v => if f.sequence then [] else k.opened ++ v.opened
  | _ => []

theorem TypeExpr.mem_relations_of_opened {e : TypeExpr} {t : Target} (h : t ∈ e.opened) :
    t ∈ e.relations := by
  induction e with
  | primitive f p => cases h
  | enum f name => cases h
  | relation f t' => exact (List.mem_ite_nil_left.1 h).2
  | array f e ih | geometry f shape e ih => exact ih (List.mem_ite_nil_left.1 h).2
  | map f k v ihk ihv =>
    rcases List.mem_append.1 (List.mem_ite_nil_left.1 h).2 with h | h
    · exact List.mem_append_left _ (ihk h)
    · exact List.mem_append_right _ (ihv h)

theorem TypeExpr.opened_of_sequence {e : TypeExpr} (h : e.sequence = true) : e.opened = [] := by
  cases e with
  | primitive f p => rfl
  | enum f name => rfl
  | relation f t => exact if_pos h
  | array f e => exact if_pos h
  | map f k v => exact if_pos h
  | geometry f shape e => exact if_pos h

theorem TypeExpr.eq_primitive_of_withFlags {e : TypeExpr} {f f' : Flags} {p : Primitive}
    (h : e.withFlags f = .primitive f' p) : ∃ f, e = .primitive f p := by
  cases e <;> cases h
  exact ⟨_, rfl⟩

/-! The mark of a key is no part of what is expanded. -/

theorem TypeExpr.opened_unkeyed (e : TypeExpr) : e.unkeyed.opened = e.opened := by
  cases e <;> rfl

theorem TypeExpr.sequence_unkeyed (e : TypeExpr) : e.unkeyed.sequence = e.sequence := by
  cases e <;> rfl

theorem TypeExpr.nullable_unkeyed (e : TypeExpr) : e.unkeyed.nullable = e.nullable := by
  cases e <;> rfl

theorem TypeExpr.relation?_unkeyed (e : TypeExpr) : e.unkeyed.relation? = e.relation? := by
  cases e <;> rfl

namespace Schemas

variable {ss : Schemas}

/-- The expansion of an annotation is finite, every relation in it leads to a column, and the
primitive types in it are among the given ones. It stops at sequences. -/
inductive ExpandsInto (ss : Schemas) (leaf : Primitive → Prop) : TypeExpr → Prop
  | sequence {e : TypeExpr} (stop : e.sequence = true) : ExpandsInto ss leaf e
  | primitive (f : Flags) {p : Primitive} (given : leaf p) : ExpandsInto ss leaf (.primitive f p)
  | enum (f : Flags) (name : String) : ExpandsInto ss leaf (.enum f name)
  | array (f : Flags) {e : TypeExpr} (element : ExpandsInto ss leaf e) :
      ExpandsInto ss leaf (.array f e)
  | map (f : Flags) {k v : TypeExpr} (key : ExpandsInto ss leaf k)
      (value : ExpandsInto ss leaf v) : ExpandsInto ss leaf (.map f k v)
  | geometry (f : Flags) (shape : Geometry) {e : TypeExpr} (element : ExpandsInto ss leaf e) :
      ExpandsInto ss leaf (.geometry f shape e)
  | relation (f : Flags) {t : Target} {c : SchemaColumn} (leads : ss.LeadsTo t c)
      (column : ExpandsInto ss leaf c.expr.unkeyed) : ExpandsInto ss leaf (.relation f t)

/-- The expansion of an annotation is finite, and every relation in it leads to a column. -/
abbrev Expands (ss : Schemas) : TypeExpr → Prop :=
  ss.ExpandsInto fun _ => True

/-- The columns of all tables. -/
def columns (ss : Schemas) : List SchemaColumn :=
  ss.values.flatMap fun s => s.columns.values

/-- A column is put into the place of a relation in the type of another one. -/
def Opens (ss : Schemas) (c c' : SchemaColumn) : Prop :=
  ∃ t ∈ c.expr.opened, ss.LeadsTo t c'

theorem LeadsTo.mem_columns {t : Target} {c : SchemaColumn} (h : ss.LeadsTo t c) :
    c ∈ ss.columns := by
  obtain ⟨s, hs, hc⟩ := exists_mem_of_linked (linked_iff.2 h)
  exact List.mem_flatMap.2 ⟨s, Keyed.mem_values_of_find? hs, hc⟩

/-! ### Finite expansions -/

/-- An annotation expands if all its relations do. -/
theorem expands_iff {e : TypeExpr} :
    ss.Expands e ↔ ∀ t ∈ e.opened, ∃ c, ss.LeadsTo t c ∧ ss.Expands c.expr.unkeyed := by
  constructor
  · intro h t ht
    induction h with
    | sequence stop =>
      rw [TypeExpr.opened_of_sequence stop] at ht
      cases ht
    | primitive f given => cases ht
    | enum f name => cases ht
    | array f element ih | geometry f shape element ih =>
      exact ih (List.mem_ite_nil_left.1 ht).2
    | map f key value ihk ihv =>
      rcases List.mem_append.1 (List.mem_ite_nil_left.1 ht).2 with ht | ht
      · exact ihk ht
      · exact ihv ht
    | relation f leads column ih =>
      cases List.mem_singleton.1 (List.mem_ite_nil_left.1 ht).2
      exact ⟨_, leads, column⟩
  · intro h
    induction e with
    | primitive f p => exact .primitive f trivial
    | enum f name => exact .enum f name
    | array f e ih =>
      by_cases hs : f.sequence = true
      · exact .sequence hs
      · exact .array f (ih fun t ht => h t (List.mem_ite_nil_left.2 ⟨hs, ht⟩))
    | geometry f shape e ih =>
      by_cases hs : f.sequence = true
      · exact .sequence hs
      · exact .geometry f shape (ih fun t ht => h t (List.mem_ite_nil_left.2 ⟨hs, ht⟩))
    | map f k v ihk ihv =>
      by_cases hs : f.sequence = true
      · exact .sequence hs
      · have hinside (t : Target) (ht : t ∈ k.opened ++ v.opened) :=
          h t (List.mem_ite_nil_left.2 ⟨hs, ht⟩)
        rw [List.forall_mem_append] at hinside
        exact .map f (ihk hinside.1) (ihv hinside.2)
    | relation f t =>
      by_cases hs : f.sequence = true
      · exact .sequence hs
      · obtain ⟨c, hleads, hc⟩ := h t (List.mem_ite_nil_left.2 ⟨hs, List.mem_singleton.2 rfl⟩)
        exact .relation f hleads hc

theorem expands_unkeyed {e : TypeExpr} : ss.Expands e.unkeyed ↔ ss.Expands e := by
  rw [expands_iff, expands_iff, TypeExpr.opened_unkeyed]

/-- Columns that are put into the place of the relations of an annotation with a finite expansion
lead to no further ones without end. -/
theorem ExpandsInto.acc {leaf : Primitive → Prop} {e : TypeExpr} (h : ss.ExpandsInto leaf e)
    {t : Target} (ht : t ∈ e.opened) {c : SchemaColumn} (hc : ss.LeadsTo t c) :
    Acc (fun a b => ss.Opens b a) c := by
  induction h generalizing t c with
  | sequence stop =>
    rw [TypeExpr.opened_of_sequence stop] at ht
    cases ht
  | primitive f given => cases ht
  | enum f name => cases ht
  | array f element ih | geometry f shape element ih =>
    exact ih (List.mem_ite_nil_left.1 ht).2 hc
  | map f key value ihk ihv =>
    rcases List.mem_append.1 (List.mem_ite_nil_left.1 ht).2 with ht | ht
    · exact ihk ht hc
    · exact ihv ht hc
  | relation f leads column ih =>
    cases List.mem_singleton.1 (List.mem_ite_nil_left.1 ht).2
    cases hc.unique leads
    refine ⟨_, fun c' hc' => ?_⟩
    obtain ⟨t', ht', hleads'⟩ := hc'
    rw [← TypeExpr.opened_unkeyed] at ht'
    exact ih ht' hleads'

theorem ExpandsInto.not_transGen {leaf : Primitive → Prop} {c : SchemaColumn}
    (h : ss.ExpandsInto leaf c.expr) : ¬ TransGen ss.Opens c c := by
  refine not_transGen_of_acc ⟨c, fun c' hc' => ?_⟩
  obtain ⟨t, ht, hleads⟩ := hc'
  exact h.acc ht hleads

/-- If no column comes back to itself, what is put into the place of relations comes to an end,
since there are only finitely many columns. -/
theorem wellFounded_opens (h : ∀ c, ¬ TransGen ss.Opens c c) :
    WellFounded fun a b : {c // c ∈ ss.columns} => ss.Opens b a := by
  set r : {c // c ∈ ss.columns} → {c // c ∈ ss.columns} → Prop := fun a b => ss.Opens b a with hr
  have hfinite : Finite {c // c ∈ ss.columns} := (List.finite_toSet ss.columns).to_subtype
  have htrans : IsTrans _ (TransGen r) := ⟨fun _ _ _ => TransGen.trans⟩
  have hirrefl : Std.Irrefl (TransGen r) := by
    refine ⟨fun a ha => h a ?_⟩
    exact (Relation.transGen_swap.1 ha).lift Subtype.val fun _ _ hab => hab
  have hwell : WellFounded (TransGen r) := Finite.wellFounded_of_trans_of_irrefl _
  exact Subrelation.wf TransGen.single hwell

/-- **Expansions are finite just if no column comes back to itself**, provided that every relation
leads to a column. -/
theorem forall_expands_iff
    (hleads : ∀ c ∈ ss.columns, ∀ t ∈ c.expr.opened, ∃ c', ss.LeadsTo t c') :
    (∀ c ∈ ss.columns, ss.Expands c.expr) ↔ ∀ c, ¬ TransGen ss.Opens c c := by
  constructor
  · intro h c hcycle
    obtain ⟨b, -, t, -, hlast⟩ := TransGen.tail'_iff.1 hcycle
    exact (h c hlast.mem_columns).not_transGen hcycle
  · intro h c hc
    -- By induction on what is put into the place of relations.
    refine (wellFounded_opens h).induction (C := fun c => ss.Expands c.1.expr) ⟨c, hc⟩ ?_
    intro c ih
    refine expands_iff.2 fun t ht => ?_
    obtain ⟨c', hc'⟩ := hleads c.1 c.2 t ht
    exact ⟨c', hc', expands_unkeyed.2 (ih ⟨c', hc'.mem_columns⟩ ⟨t, ht, hc'⟩)⟩

/-! ### Chains of relations by themselves -/

/-- The type of a column is a relation to another column. -/
def Follows (ss : Schemas) (c c' : SchemaColumn) : Prop :=
  c.expr.sequence = false ∧ ∃ t, c.expr.relation? = some t ∧ ss.LeadsTo t c'

/-- A chain that comes to an end passes no column that leads on without end. -/
theorem Chain.acc {es : List TypeExpr} {ls : List (String × String)} {last : TypeExpr}
    (h : ss.Chain es ls last) {c : SchemaColumn} (hs : ∀ e ∈ es.head?, e.sequence = c.expr.sequence)
    (hr : ∀ e ∈ es.head?, e.relation? = c.expr.relation?) :
    Acc (fun a b => ss.Follows b a) c := by
  induction h generalizing c with
  | stop ends =>
    refine ⟨c, fun c' hc' => ?_⟩
    obtain ⟨hseq, t, ht, -⟩ := hc'
    rw [← hs _ rfl] at hseq
    rw [← hr _ rfl] at ht
    rcases ends with hends | hends
    · rw [hends] at hseq
      cases hseq
    · rw [hends] at ht
      cases ht
  | link through relation leads rest ih =>
    refine ⟨c, fun c' hc' => ?_⟩
    obtain ⟨-, t, ht, hleads⟩ := hc'
    rw [← hr _ rfl, relation] at ht
    cases ht
    cases hleads.unique leads
    refine ih (fun e he => ?_) fun e he => ?_
    · cases he
      exact TypeExpr.sequence_unkeyed _
    · cases he
      exact TypeExpr.relation?_unkeyed _

end Schemas

namespace Definitions

variable {d : Definitions} {I : Condition}

/-! ### Casts along an expansion -/

/-- While constants are being followed, all of them but `k` at least, the cast of every cell under
an annotation comes to an end. -/
def Ends (d : Definitions) (k : Nat) (type : String) : Prop :=
  ∀ (trail : Trail) (cell : Cell), d.Followed trail → d.consts.size ≤ trail.length + k →
    ∃ n, d.values trail n (type, cell) ≠ .error .endless

/-- The cast of a cell comes to an end if those of its parts do, and those of constants while one
more of them is being followed. -/
theorem ends_of_parts (hI : d.RemembersNames I) {k : Nat} {type : String}
    (hconsts : ∀ j < k, ∀ c ∈ d.consts.values, d.Ends j c.type)
    (hparts : ∀ cell y, d.Part (type, cell) y → d.Ends k y.1) : d.Ends k type := by
  intro trail cell
  have hconst (j : Nat) (hj : j < k) (c : Constant) (hc : c ∈ d.consts.values) :
      d.EndsAt j (c.type, c.value) := fun trail => hconsts j hj c hc trail c.value
  exact endsAt_of_parts hI hconst (fun y hy trail => hparts cell y hy.2 trail y.2) trail

/-- The casts of dates come to an end. -/
theorem ends_dateTime (hI : d.RemembersNames I) {k : Nat}
    (hconsts : ∀ j < k, ∀ c ∈ d.consts.values, d.Ends j c.type) : d.Ends k "DateTime" :=
  ends_of_parts hI hconsts fun _ _ hy => absurd hy not_part_dateTime

/-- What an annotation is stored as is told from the end of the chain from it. -/
theorem exists_chain_of_storedAs (hcanonical : d.schemas.Canonical) {e expr : TypeExpr}
    (he : e.isWellFormed = true) (h : d.StoredAs e.text expr) :
    ∃ es ls last, d.schemas.Chain (e :: es) ls last ∧
      ((∃ f, expr = .primitive f .int32) ∨
        last.sequence = false ∧ ∃ f, expr = last.withFlags f) := by
  obtain ⟨root, hroot, hparse⟩ := h
  obtain ⟨es, ls, last, hchain, -, -, rfl⟩ := (Schemas.rootFrom_ok_iff hcanonical he rfl).1 hroot
  have hlast : last.isWellFormed = true :=
    hchain.isWellFormed_last fun a ha => by cases ha; exact he
  refine ⟨es, ls, last, hchain, ?_⟩
  cases hs : last.sequence with
  | true =>
    simp only [TypeExpr.stored, hs, if_true] at hparse
    exact .inl ⟨_, Except.ok.inj (hparse.symm.trans (TypeExpr.parse_text rfl))⟩
  | false =>
    simp only [TypeExpr.stored, hs, Bool.false_eq_true, if_false] at hparse
    rw [← TypeExpr.isWellFormed_withFlags] at hlast
    exact .inr ⟨rfl, _, Except.ok.inj (hparse.symm.trans (TypeExpr.parse_text hlast))⟩

/-- Casts under the annotations of the parameters of calls come to an end. -/
def ArgumentsEnd (d : Definitions) (k : Nat) : Prop :=
  ∀ p ∈ d.prototypes.values, ∀ q ∈ p.params, d.Ends k q.type

section Ends

variable (hI : d.RemembersNames I) (hcanonical : d.schemas.Canonical) {k : Nat}
  (hconsts : ∀ j < k, ∀ c ∈ d.consts.values, d.Ends j c.type) {e : TypeExpr}

include hI hcanonical hconsts

/-- Casts under an annotation come to an end if they do under what stands in the end of the chain
from it, and under the annotations of parameters if that is a call. -/
theorem ends_of_components (he : e.isWellFormed = true)
    (hlast : ∀ es ls last, d.schemas.Chain (e :: es) ls last → last.sequence = false →
      (∀ a ∈ last.components, d.Ends k a.text) ∧
        ∀ f, last = .primitive f .call → d.ArgumentsEnd k) : d.Ends k e.text := by
  refine ends_of_parts hI hconsts fun cell y hy => ?_
  rcases hy.type_cases with ⟨expr, hstored, a, ha, hya⟩ | ⟨-, hy⟩ |
      ⟨⟨f, hstored⟩, p, hp, q, hq, hyq⟩
  · rw [hya]
    obtain ⟨es, ls, last, hchain, ⟨f, rfl⟩ | ⟨hs, f, rfl⟩⟩ :=
      exists_chain_of_storedAs hcanonical he hstored
    · cases ha
    · rw [TypeExpr.components_withFlags] at ha
      exact (hlast es ls last hchain hs).1 a ha
  · rw [hy]
    exact ends_dateTime hI hconsts
  · rw [hyq]
    obtain ⟨es, ls, last, hchain, ⟨f', heq⟩ | ⟨hs, f', heq⟩⟩ :=
      exists_chain_of_storedAs hcanonical he hstored
    · cases heq
    · obtain ⟨f, rfl⟩ := TypeExpr.eq_primitive_of_withFlags heq.symm
      exact (hlast es ls _ hchain hs).2 f rfl p hp q hq

/-- Casts under an annotation with a finite expansion come to an end, provided that those under the
annotations of constants do, and those under the annotations of parameters if there are calls in the
expansion. -/
theorem ends_of_expandsInto {leaf : Primitive → Prop} (hcalls : leaf .call → d.ArgumentsEnd k)
    (he : e.isWellFormed = true) (h : d.schemas.ExpandsInto leaf e) : d.Ends k e.text := by
  have hends {e : TypeExpr} (he : e.isWellFormed = true) :=
    ends_of_components (e := e) hI hcanonical hconsts he
  -- What is shown of an expansion is the condition on the chain, which its relations go along.
  refine hends he fun es ls last hchain hs => ?_
  induction h generalizing es ls last with
  | sequence stop =>
    obtain ⟨-, -, rfl⟩ := hchain.of_ends (.inl stop)
    rw [stop] at hs
    cases hs
  | primitive f given =>
    obtain ⟨-, -, rfl⟩ := hchain.of_ends (.inr rfl)
    refine ⟨fun a ha => absurd ha List.not_mem_nil, ?_⟩
    rintro f ⟨⟩
    exact hcalls given
  | enum f name =>
    obtain ⟨-, -, rfl⟩ := hchain.of_ends (.inr rfl)
    exact ⟨fun a ha => absurd ha List.not_mem_nil, nofun⟩
  | array f element ih | geometry f shape element ih =>
    obtain ⟨-, -, rfl⟩ := hchain.of_ends (.inr rfl)
    exact ⟨List.forall_mem_singleton.2 (hends he (ih he)), nofun⟩
  | map f key value ihk ihv =>
    obtain ⟨-, -, rfl⟩ := hchain.of_ends (.inr rfl)
    obtain ⟨hk, hv⟩ := Bool.and_eq_true_iff.1 he
    exact ⟨List.forall_mem_cons.2
      ⟨hends hk (ihk hk), List.forall_mem_singleton.2 (hends hv (ihv hv))⟩, nofun⟩
  | @relation f t c leads column ih =>
    by_cases hsequence : f.sequence = true
    · obtain ⟨-, -, rfl⟩ := hchain.of_ends (.inl hsequence)
      exact ⟨fun a ha => absurd ha List.not_mem_nil, nofun⟩
    · obtain ⟨c', es', ls', hleads, -, -, hrest⟩ :=
        hchain.of_relation (Bool.not_eq_true _ ▸ hsequence) rfl
      cases hleads.unique leads
      have hc := TypeExpr.isWellFormed_unkeyed (TypeExpr.isWellFormed_of_parse c.parses)
      exact ih hc es' ls' last hrest hs

end Ends

/-- Every parameter is annotated with the canonical text of a type with a finite expansion, in which
there are no calls. -/
def Unnested (d : Definitions) : Prop :=
  ∀ p ∈ d.prototypes.values, ∀ q ∈ p.params, ∃ e, e.isWellFormed = true ∧ q.type = e.text ∧
    d.schemas.ExpandsInto (· ≠ .call) e

/-- No cast under an annotation with a finite expansion goes on without end, provided that the
annotations of constants have finite expansions too, and that calls are not nested. -/
theorem cast_ends_of_expands (hcanonical : d.schemas.Canonical) (hcalls : d.Unnested)
    (hconsts : ∀ c ∈ d.consts.values, ∃ e, e.isWellFormed = true ∧ c.type = e.text ∧
      d.schemas.Expands e) {e : TypeExpr} (he : e.isWellFormed = true) (h : d.schemas.Expands e)
    (cell : Cell) : (d.cast e.text cell).run.fresh ≠ .error .endless := by
  have hI := (d.remembers_computed anyTexts).toRemembersNames
  have hstep {k : Nat} (hless : ∀ j < k, ∀ c ∈ d.consts.values, d.Ends j c.type) {e : TypeExpr}
      (he : e.isWellFormed = true) (h : d.schemas.Expands e) : d.Ends k e.text := by
    refine ends_of_expandsInto hI hcanonical hless (fun _ p hp q hq => ?_) he h
    obtain ⟨e, he, htype, hexpands⟩ := hcalls p hp q hq
    rw [htype]
    exact ends_of_expandsInto hI hcanonical hless (fun hne => absurd rfl hne) he hexpands
  have hends (k : Nat) : ∀ c ∈ d.consts.values, d.Ends k c.type := by
    induction k using Nat.strongRecOn with
    | ind k ih =>
      intro c hc
      obtain ⟨e, he, htype, hexpands⟩ := hconsts c hc
      rw [htype]
      exact hstep ih he hexpands
  obtain ⟨n, hn⟩ := hstep (fun j _ => hends j) he h [] cell .nil (Nat.le_add_left _ _)
  exact cast_ends hI hn

/-! ### Types inside types -/

/-- What the ends of the chains from an annotation are put together from does not enclose other
annotations without end. -/
def EnclosesFinitely (d : Definitions) (e : TypeExpr) : Prop :=
  ∀ es ls last, d.schemas.Chain (e :: es) ls last → last.sequence = false →
    ∀ a ∈ last.components, Acc (fun inner outer => d.Encloses outer inner) a.text

theorem EnclosesFinitely.acc (hcanonical : d.schemas.Canonical) {e : TypeExpr}
    (he : e.isWellFormed = true) (h : d.EnclosesFinitely e) :
    Acc (fun inner outer => d.Encloses outer inner) e.text := by
  refine ⟨_, fun inner hinner => ?_⟩
  obtain ⟨expr, hstored, a, ha, rfl⟩ := hinner
  obtain ⟨es, ls, last, hchain, ⟨f, rfl⟩ | ⟨hs, f, rfl⟩⟩ :=
    exists_chain_of_storedAs hcanonical he hstored
  · cases ha
  · rw [TypeExpr.components_withFlags] at ha
    exact h es ls last hchain hs a ha

theorem enclosesFinitely_of_components {e : TypeExpr} (hends : e.Ends)
    (h : e.sequence = false → ∀ a ∈ e.components,
      Acc (fun inner outer => d.Encloses outer inner) a.text) : d.EnclosesFinitely e := by
  intro es ls last hchain hs
  obtain ⟨-, -, rfl⟩ := hchain.of_ends hends
  exact h hs

/-- An annotation does not enclose others without end if the columns do not that its relations lead
to. -/
theorem enclosesFinitely_of_opened (hcanonical : d.schemas.Canonical) {e : TypeExpr}
    (he : e.isWellFormed = true)
    (hopened : ∀ t ∈ e.opened, ∀ c, d.schemas.LeadsTo t c → d.EnclosesFinitely c.expr.unkeyed) :
    d.EnclosesFinitely e := by
  induction e with
  | primitive f p => exact enclosesFinitely_of_components (.inr rfl) fun _ => nofun
  | enum f name => exact enclosesFinitely_of_components (.inr rfl) fun _ => nofun
  | relation f t =>
    intro es ls last hchain hs
    by_cases hsequence : f.sequence = true
    · obtain ⟨-, -, rfl⟩ := hchain.of_ends (.inl hsequence)
      exact fun a ha => absurd ha List.not_mem_nil
    · obtain ⟨c, es', ls', hleads, -, -, hrest⟩ :=
        hchain.of_relation (Bool.not_eq_true _ ▸ hsequence) rfl
      have ht : t ∈ (TypeExpr.relation f t).opened :=
        List.mem_ite_nil_left.2 ⟨hsequence, List.mem_singleton_self t⟩
      exact hopened t ht c hleads es' ls' last hrest hs
  | array f e ih | geometry f shape e ih =>
    refine enclosesFinitely_of_components (.inr rfl) fun hs => List.forall_mem_singleton.2 ?_
    have hs : ¬ f.sequence = true := Bool.not_eq_true _ ▸ hs
    exact (ih he fun t ht => hopened t (List.mem_ite_nil_left.2 ⟨hs, ht⟩)).acc hcanonical he
  | map f k v ihk ihv =>
    obtain ⟨hk, hv⟩ := Bool.and_eq_true_iff.1 he
    refine enclosesFinitely_of_components (.inr rfl) fun hs => ?_
    have hs : ¬ f.sequence = true := Bool.not_eq_true _ ▸ hs
    have hinside (t : Target) (ht : t ∈ k.opened ++ v.opened) :=
      hopened t (List.mem_ite_nil_left.2 ⟨hs, ht⟩)
    rw [List.forall_mem_append] at hinside
    exact List.forall_mem_cons.2 ⟨(ihk hk hinside.1).acc hcanonical hk,
      List.forall_mem_singleton.2 ((ihv hv hinside.2).acc hcanonical hv)⟩

/-- **Types do not recurse if no column comes back to itself.** -/
theorem wellFounded_encloses (hcanonical : d.schemas.Canonical)
    (h : ∀ c, ¬ TransGen d.schemas.Opens c c) :
    WellFounded fun inner outer => d.Encloses outer inner := by
  have hwell (c : SchemaColumn) : c.expr.unkeyed.isWellFormed = true :=
    TypeExpr.isWellFormed_unkeyed (TypeExpr.isWellFormed_of_parse c.parses)
  have hcolumns (c : {c // c ∈ d.schemas.columns}) : d.EnclosesFinitely c.1.expr.unkeyed := by
    induction c using (Schemas.wellFounded_opens h).induction with
    | h c ih =>
      refine enclosesFinitely_of_opened hcanonical (hwell c.1) fun t ht c' hc' => ?_
      rw [TypeExpr.opened_unkeyed] at ht
      exact ih ⟨c', hc'.mem_columns⟩ ⟨t, ht, hc'⟩
  refine ⟨fun type => ⟨type, fun inner hinner => ?_⟩⟩
  obtain ⟨expr, ⟨root, -, hparse⟩, a, ha, rfl⟩ := hinner
  have ha : a.isWellFormed = true := TypeExpr.isWellFormed_of_mem_inner
    (TypeExpr.isWellFormed_of_parse hparse) (TypeExpr.mem_inner_of_components ha)
  exact (enclosesFinitely_of_opened hcanonical ha fun t _ c hc =>
    hcolumns ⟨c, hc.mem_columns⟩).acc hcanonical ha

end Definitions

end TypedSheets
