import TypedSheets.Proofs.Compilation.Stages

/-!
# What the checks of relations find out

When the checks of relation types and of prototypes are silent, every annotation is well formed and
every relation in it leads to a column. When the check of relation values is silent, every value of
a relation type is among the texts of that column.

## Main definitions

* `Schemas.Leads` — an annotation is well formed, and its relations lead to columns.

## Main results

* `Check.leads_of_relationTypes` — the annotations of columns and constants.
* `Check.leads_of_prototypes` — the annotations of parameters.
* `Check.mem_texts_of_relationValues` — the values of relation types.
-/

namespace TypedSheets

open Recall

/-- An annotation is well formed, and every relation in it leads to a column. -/
def Schemas.Leads (ss : Schemas) (type : String) : Prop :=
  ∃ expr, TypeExpr.parse type = .ok expr ∧
    ∀ target ∈ expr.relations, (ss.targetColumn? target).isSome = true

/-- A relation that passes its check leads to a column. -/
theorem Schemas.isSome_targetColumn? {ss : Schemas} {target : Target}
    (h : ss.checkTarget target = .ok ()) : (ss.targetColumn? target).isSome = true := by
  unfold checkTarget at h
  dsimp only at h
  split at h
  · cases h
  · rename_i schema hschema
    split at h
    · cases h
    · rename_i hkey
      unfold targetColumn? keyOf?
      rw [hschema]
      cases hcolumn : target.column with
      | some column => rfl
      | none =>
        cases hk : schema.key? with
        | none =>
          rw [hk] at hkey
          exact absurd rfl hkey
        | some key => simp [hk]

namespace Check

variable {s : Session} {w : Workbook} {I : Condition}

/-- Without faults, every relation in a type passes its check. -/
theorem checkTarget_of_targetFaults {ss : Schemas} {expr : TypeExpr}
    (h : targetFaults ss expr = []) :
    ∀ target ∈ expr.relations, ss.checkTarget target = .ok () := by
  intro target ht
  unfold targetFaults Attempt.failures at h
  rw [List.filterMap_eq_nil_iff] at h
  have hnone := h _ (List.mem_map.2 ⟨target, ht, rfl⟩)
  cases hcheck : ss.checkTarget target with
  | ok u => rfl
  | error f =>
    rw [hcheck] at hnone
    cases hnone

/-- A type without faulty relations leads somewhere. -/
theorem leads_of_targetFaults {type : String} {expr : TypeExpr}
    (hp : TypeExpr.parse type = .ok expr) (h : targetFaults s.schemas expr = []) :
    s.schemas.Leads type :=
  ⟨expr, hp, fun target ht =>
    Schemas.isSome_targetColumn? (checkTarget_of_targetFaults h target ht)⟩

/-- A type without complaints: it is well formed, its relations pass their checks, and if it has
any, it has a root type. -/
theorem exists_of_typeFaults {type : String} (h : s.Respects I)
    (hg : Gives I (typeFaults s type).run (.ok [])) :
    ∃ expr, TypeExpr.parse type = .ok expr ∧ targetFaults s.schemas expr = [] ∧
      (expr.relations ≠ [] → ∃ root, Gives I (s.schemas.rootType type).run (.ok root)) := by
  unfold typeFaults at hg
  split at hg
  · cases hg.pure_ok
  · rename_i expr hexpr
    refine ⟨expr, hexpr, ?_⟩
    dsimp only at hg
    split at hg
    · rename_i hsome
      have hnil := hg.pure_ok
      refine ⟨hnil, fun hne => absurd hsome ?_⟩
      rw [hnil]
      simpa using hne
    · rename_i hnone
      simp only [Bool.or_eq_true, not_or, Bool.not_eq_true', List.isEmpty_eq_false_iff,
        ne_eq, not_not] at hnone
      refine ⟨hnone.1, fun _ => ?_⟩
      obtain ⟨r, hr, hg⟩ := hg.bind_ok (h (.rootType type)).result
      cases r with
      | ok root => exact ⟨root, hr.result_ok⟩
      | error f => cases hg.pure_ok

/-- If the check of relation types is silent, no type of a column or constant has complaints. -/
theorem gives_of_relationTypes (h : s.Respects I)
    (hg : ∀ item ∈ relationTypes.items s w, Gives I item.run (.ok [])) :
    (∀ t ∈ s.schemas.values, ∀ c ∈ t.columns.values,
      Gives I (typeFaults s c.type).run (.ok [])) ∧
      ∀ c ∈ s.defs.consts.values, Gives I (typeFaults s c.type).run (.ok []) := by
  refine ⟨fun t ht c hc => ?_, fun c hc => ?_⟩
  · have hitem := hg _ (List.mem_append_left _ (List.mem_map.2 ⟨t, ht, rfl⟩))
    have hk (c : SchemaColumn) : Keeps I (do
        return (← typeFaults s c.type).map fun f =>
          complaint f (s.tableLocation? w t.name) t.name c.name : Attempt (List Diagnostic)).run :=
      Keeps.bind_run ((passedOn_asks.typeFaults c.type).respects h) fun _ => Keeps.pure _
    obtain ⟨found, hfound, hitem⟩ := hitem.bind_ok (Keeps.mapM_run fun c _ => hk c)
    have hcolumn := hfound.mapM_nil hitem.pure_ok (fun c _ => hk c) c hc
    obtain ⟨fs, hfs, hcolumn⟩ := hcolumn.bind_ok ((passedOn_asks.typeFaults c.type).respects h)
    cases List.map_eq_nil_iff.1 hcolumn.pure_ok
    exact hfs
  · have hitem := hg _ (List.mem_append_right _ (List.mem_map.2 ⟨c, hc, rfl⟩))
    obtain ⟨fs, hfs, hitem⟩ := hitem.bind_ok ((passedOn_asks.typeFaults c.type).respects h)
    cases List.map_eq_nil_iff.1 hitem.pure_ok
    exact hfs

/-- If the check of relation types is silent, the types of columns and constants lead to columns. -/
theorem leads_of_relationTypes (h : s.Respects I)
    (hg : ∀ item ∈ relationTypes.items s w, Gives I item.run (.ok [])) :
    (∀ t ∈ s.schemas.values, ∀ c ∈ t.columns.values, s.schemas.Leads c.type) ∧
      ∀ c ∈ s.defs.consts.values, s.schemas.Leads c.type := by
  have hleads {type : String} (hg : Gives I (typeFaults s type).run (.ok [])) :
      s.schemas.Leads type := by
    obtain ⟨expr, hexpr, hfaults, -⟩ := exists_of_typeFaults h hg
    exact leads_of_targetFaults hexpr hfaults
  obtain ⟨hcolumns, hconsts⟩ := gives_of_relationTypes h hg
  exact ⟨fun t ht c hc => hleads (hcolumns t ht c hc), fun c hc => hleads (hconsts c hc)⟩

theorem leads_of_parameterFailures {q : Parameter}
    (hg : Gives I (parameterFailures s q).run (.ok [])) : s.schemas.Leads q.type := by
  unfold parameterFailures at hg
  split at hg
  · cases hg.pure_ok
  · rename_i expr hexpr
    refine leads_of_targetFaults hexpr ?_
    split at hg
    · rename_i hnil _
      exact hnil
    · exact hg.pure_ok

theorem leads_of_parametersFaults (h : s.Respects I) {p : Prototype} {first : Option String}
    {qs : List Parameter} (hg : Gives I (parametersFaults s p first qs).run (.ok [])) :
    ∀ q ∈ qs, s.schemas.Leads q.type := by
  induction qs generalizing first with
  | nil =>
    intro q hq
    cases hq
  | cons q qs ih =>
    have hasks : Asks s (parameterFailures s q) :=
      passedOn_asks.parameterFailures fun _ _ => asks_cast q.type _
    have hrest : Asks s (parametersFaults s p (first.or (q.default.map fun _ => q.name)) qs) :=
      passedOn_asks.parametersFaults p _ fun q _ _ _ => asks_cast q.type _
    have hk : Keeps I (parameterFaults s p first q).run :=
      Keeps.bind_run (hasks.respects h) fun _ => Keeps.pure _
    obtain ⟨here, hhere, hg⟩ := hg.bind_ok hk
    obtain ⟨rest, hrest, hg⟩ := hg.bind_ok (hrest.respects h)
    obtain ⟨rfl, rfl⟩ := List.append_eq_nil_iff.1 hg.pure_ok
    obtain ⟨fs, hfs, hhere⟩ := hhere.bind_ok (hasks.respects h)
    cases List.map_eq_nil_iff.1 (List.append_eq_nil_iff.1 hhere.pure_ok).2
    rw [List.forall_mem_cons]
    exact ⟨leads_of_parameterFailures hfs, ih hrest⟩

/-- If the check of prototypes is silent, the types of parameters lead to columns. -/
theorem leads_of_prototypes (h : s.Respects I)
    (hg : ∀ item ∈ prototypes.items s w, Gives I item.run (.ok [])) :
    ∀ p ∈ s.defs.prototypes.values, ∀ q ∈ p.params, s.schemas.Leads q.type :=
  fun p hp => leads_of_parametersFaults h (hg _ (List.mem_map.2 ⟨p, hp, rfl⟩))

/-! ### Values -/

theorem mem_texts_of_useFaults {u : RelationUse} (hg : Gives s.Sound (useFaults s u) []) :
    u.value ∈ s.columnTexts u.table u.column := by
  have htexts := Session.realizedValues_ensures
    (R := fun table column texts => texts = s.columnTexts table column) (fun _ _ => rfl)
    u.table u.column
  obtain ⟨texts, hgives, hg⟩ := hg.bind htexts.keeps
  have hrest := hg.pure
  split at hrest
  · rename_i hmem
    rw [hgives.ensured htexts] at hmem
    exact List.contains_iff_mem.1 hmem
  · cases hrest

/-- If the check of relation values is silent, every value of a relation type is among the texts of
the column that the relation leads to. -/
theorem mem_texts_of_relationValues
    (hg : ∀ item ∈ relationValues.items s w, Gives s.Sound item.run (.ok [])) :
    ∀ u ∈ s.relationUses, u.value ∈ s.columnTexts u.table u.column := by
  intro u hu
  rw [← flatten_chunksOf s.settings.usesPerJob s.relationUses, List.mem_flatten] at hu
  obtain ⟨chunk, hchunk, hu⟩ := hu
  have hk (u : RelationUse) : Keeps s.Sound (useFaults s u) :=
    Keeps.bind (s.respects (.realizedValues u.table u.column)) fun _ => Keeps.pure _
  have hitem := (hg _ (List.mem_map.2 ⟨chunk, hchunk, rfl⟩)).lift_ok
  obtain ⟨found, hfound, hitem⟩ := hitem.bind (Keeps.mapM fun u _ => hk u)
  obtain ⟨faults, hmem, hfaults⟩ := (hfound.mapM fun u _ => hk u).exists_of_mem_left hu
  cases List.flatten_eq_nil_iff.1 hitem.pure faults hmem
  exact mem_texts_of_useFaults hfaults

end Check

end TypedSheets
