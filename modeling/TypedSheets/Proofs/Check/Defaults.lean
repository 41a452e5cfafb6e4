import TypedSheets.Proofs.Casting.Binding
import TypedSheets.Proofs.Casting.Halting
import TypedSheets.Proofs.Check.Silent
import TypedSheets.Proofs.Compilation.Jobs

/-!
# Prototypes whose defaults come last

The check of prototypes asks for a default behind every default. No other complaint of it reads like
that one, since neither annotations nor casts bring about conflicts of definitions. Prototypes that
pass are bound completely by every call that the count of arguments lets through, and for every
other prototype some count of arguments that is let through leaves a parameter without a text.

## Main results

* `Definitions.cast_ne_conflict` — a cast never fails with a conflict of definitions.
* `Check.missingDefault_mem_iff` — a default is asked for just if defaults do not come last.
* `Session.calls_bind` — how calls bind the parameters of prototypes that pass, and of others.
-/

namespace TypedSheets

open Recall

/-- A cast never fails with a conflict of definitions. -/
theorem Definitions.cast_ne_conflict (d : Definitions) (type : String) (cell : Cell)
    (detail : String) :
    (d.cast type cell).run.fresh ≠ .error (.failure (.schemaConflict detail)) := by
  have hI := (d.remembers_computed anyTexts).toRemembersNames
  have hstops : (d.values [] (d.depthBound type cell) (type, cell)).ErrorsIn
      fun h => ∀ detail, h ≠ .failure (.schemaConflict detail) := by
    refine errorsIn_values hI ?_ (fun _ _ => nofun) (fun _ => nofun) [] _ fun _ _ _ _ => nofun
    exact fun f hf detail heq => hf.noConflict detail (Halt.failure.inj heq)
  exact fun h => hstops _ h detail rfl

/-- A relation that leads nowhere is no conflict of definitions. -/
theorem Schemas.checkTarget_ne_conflict (ss : Schemas) (target : Target) (detail : String) :
    ss.checkTarget target ≠ .error (.schemaConflict detail) := by
  intro h
  unfold checkTarget at h
  dsimp only at h
  split at h
  · cases h
  · split at h
    · cases h
    · split at h
      · cases h
      · split at h <;> cases h

namespace Check

variable {s : Session} {p : Prototype}

/-- What is wrong with a parameter by itself is no conflict of definitions. -/
theorem ne_conflict_of_parameterFailures {q : Parameter} {fs : List Failure}
    (h : (parameterFailures s q).run.fresh = .ok fs) :
    ∀ f ∈ fs, ∀ detail, f ≠ .schemaConflict detail := by
  unfold parameterFailures at h
  split at h
  · rename_i f hf
    cases h
    exact List.forall_mem_singleton.2 (TypeExpr.ordinary_of_parse q.type f hf).noConflict
  · split at h
    · rename_i text _ _
      rw [fresh_bind_run, Session.fresh_result] at h
      cases hcast : (s.defs.cast q.type (.text text)).run.fresh with
      | ok v =>
        rw [hcast] at h
        cases h
        exact fun f hf => absurd hf List.not_mem_nil
      | error halt =>
        rw [hcast] at h
        cases halt with
        | failure f =>
          cases h
          refine List.forall_mem_singleton.2 fun detail heq => ?_
          exact s.defs.cast_ne_conflict q.type (.text text) detail (heq ▸ hcast)
        | overflow => cases h
        | endless => cases h
    · cases h
      rintro f hf detail rfl
      unfold targetFaults Attempt.failures at hf
      obtain ⟨r, hr, hfault⟩ := List.mem_filterMap.1 hf
      obtain ⟨target, -, rfl⟩ := List.mem_map.1 hr
      cases hcheck : s.schemas.checkTarget target with
      | ok u =>
        rw [hcheck] at hfault
        cases hfault
      | error f =>
        rw [hcheck] at hfault
        cases hfault
        exact s.schemas.checkTarget_ne_conflict target detail hcheck

/-- A default is asked for at a parameter without one behind a parameter with one. -/
theorem missingDefault_mem_parameterFaults_iff {first : Option String} {q : Parameter}
    {here : List Diagnostic} (h : (parameterFaults s p first q).run.fresh = .ok here) :
    (∃ q' name, missingDefault p q' name ∈ here) ↔ first.isSome = true ∧ q.default = none := by
  unfold parameterFaults at h
  rw [fresh_bind_run] at h
  obtain ⟨fs, hfs, h⟩ := Except.exists_of_bind_ok h
  cases h
  have hother (q' : Parameter) (name : String) :
      missingDefault p q' name ∉ fs.map fun f => complaint f none p.name q.name := by
    intro hmem
    obtain ⟨f, hf, heq⟩ := List.mem_map.1 hmem
    exact ne_conflict_of_parameterFailures hfs f hf _ (congrArg Diagnostic.failure heq)
  simp only [List.mem_append, hother, or_false]
  cases first with
  | none => simp [defaultOrder]
  | some name =>
    cases hq : q.default with
    | none =>
      simp only [defaultOrder, hq, List.mem_singleton, Option.isSome_some, and_self, iff_true]
      exact ⟨q, name, rfl⟩
    | some text => simp [defaultOrder, hq]

/-- Defaults are asked for, where `first` is the first parameter before these that has one, just if
defaults do not come last. -/
theorem missingDefault_mem_parametersFaults_iff {first : Option String} {qs : List Parameter}
    {found : List Diagnostic} (h : (parametersFaults s p first qs).run.fresh = .ok found) :
    (∃ q name, missingDefault p q name ∈ found) ↔
      ¬ (qs.Pairwise (fun q q' => q.default.isSome = true → q'.default.isSome = true) ∧
        (first.isSome = true → ∀ q ∈ qs, q.default.isSome = true)) := by
  induction qs generalizing first found with
  | nil =>
    cases h
    simp
  | cons q qs ih =>
    rw [parametersFaults, fresh_bind_run] at h
    obtain ⟨here, hhere, h⟩ := Except.exists_of_bind_ok h
    rw [fresh_bind_run] at h
    obtain ⟨rest, hrest, h⟩ := Except.exists_of_bind_ok h
    cases h
    have hbehind : (∀ q' ∈ qs, q.default.isSome = true → q'.default.isSome = true) ↔
        (q.default.isSome = true → ∀ q' ∈ qs, q'.default.isSome = true) :=
      ⟨fun h hq q' hq' => h q' hq' hq, fun h q' hq' hq => h hq q' hq'⟩
    simp only [List.mem_append, exists_or, missingDefault_mem_parameterFaults_iff hhere, ih hrest,
      List.pairwise_cons, hbehind, List.forall_mem_cons]
    generalize qs.Pairwise _ = ordered, (∀ q ∈ qs, q.default.isSome = true) = defaulted
    cases first with
    | none => cases q.default <;> simp [imp_not_comm]
    | some name =>
      cases q.default with
      | none => simp
      | some text =>
        have hother : defaulted ∨ (ordered → ¬ defaulted) :=
          or_iff_not_imp_left.2 fun hnot _ => hnot
        simpa using hother

/-- **A default is asked for just if defaults do not come last.** -/
theorem missingDefault_mem_iff {found : List Diagnostic}
    (h : (parametersFaults s p none p.params).run.fresh = .ok found) :
    (∃ q name, missingDefault p q name ∈ found) ↔ ¬ p.DefaultsLast := by
  rw [missingDefault_mem_parametersFaults_iff h]
  simp [Prototype.DefaultsLast]

/-- What the check of a prototype comes to needs no memory. -/
theorem plain_parametersFaults (s : Session) (p : Prototype) (first : Option String)
    (qs : List Parameter) : Plain s.exact (parametersFaults s p first qs).run :=
  (passedOn_asks.parametersFaults p first fun q _ _ _ => asks_cast q.type _).plain
    fun r _ => s.plain_respond r

end Check

namespace Definitions

variable {d : Definitions} {sub : String → Cell → Attempt Value} {root text : String} {call : Call}
  {p : Prototype}

/-- A call of a prototype whose defaults come last, with enough arguments and not too many: every
parameter is bound to a text, and the value of the call has the values of these texts. -/
theorem castCall_of_defaultsLast (sub : String → Cell → Attempt Value) (root : String)
    (h : p.DefaultsLast) (hcall : Call.parse text = .ok call)
    (hp : d.prototypes.find? call.name = some p) (hleast : p.required ≤ call.args.length)
    (hmost : call.args.length ≤ p.params.length) :
    ∃ texts : List String, texts.length = p.params.length ∧
      (∀ i : Nat, texts[i]? = call.args[i]?.or (p.params[i]?.bind Parameter.default)) ∧
      d.castCall sub root (.text text) =
        .call call.name <$> (p.params.zip texts).mapM fun b => sub b.1.type (.text b.2) := by
  have hdefault : ∀ q ∈ p.params.drop call.args.length, q.default.isSome = true := by
    rw [Prototype.defaultsLast_iff] at h
    intro q hq
    exact h q ((List.drop_sublist_drop_left p.params hleast).mem hq)
  obtain ⟨texts, hlength, htexts, hbound⟩ := exists_texts hmost hdefault
  exact ⟨texts, hlength, htexts, hbound ▸ castCall_of_bound hcall hp hleast hmost hdefault⟩

/-- What a call comes to whose texts are cast from left to right: the values of all its texts, or
the first of them that has none. -/
theorem fresh_castCall_of_bound {bound : List (Parameter × String)}
    (h : d.castCall sub root (.text text) =
      .call call.name <$> bound.mapM fun b => sub b.1.type (.text b.2)) :
    (∀ v, (d.castCall sub root (.text text)).run.fresh = .ok v ↔ ∃ args, v = .call call.name args ∧
      List.Forall₂ (fun b a => (sub b.1.type (.text b.2)).run.fresh = .ok a) bound args) ∧
    ∀ e, (d.castCall sub root (.text text)).run.fresh = .error e ↔
      ∃ before b after, bound = before ++ b :: after ∧
        (∀ b ∈ before, ∃ a, (sub b.1.type (.text b.2)).run.fresh = .ok a) ∧
        (sub b.1.type (.text b.2)).run.fresh = .error e := by
  rw [h, fresh_map_run, fresh_mapM_run]
  refine ⟨fun v => ?_, fun e => ?_⟩
  · simp only [← Except.mapM_eq_ok_iff]
    cases bound.mapM fun b => (sub b.1.type (.text b.2)).run.fresh with
    | ok args => simp [Except.map, eq_comm]
    | error e => simp [Except.map]
  · rw [← Except.mapM_eq_error_iff]
    cases bound.mapM fun b => (sub b.1.type (.text b.2)).run.fresh with
    | ok args => simp [Except.map]
    | error e => simp [Except.map]

end Definitions

/-- **How calls bind parameters.** A call of a prototype whose defaults come last is refused if it
has fewer arguments than are required or more than there are parameters. Otherwise each parameter is
bound to the argument in its place or else to its default, and these texts are cast from left to
right: the call has a value just if all of them have, and stops with the first that has none; no
parameter is ever found without a text. The check of prototypes asks for defaults just where they
do not come last, and of such a prototype some number of arguments is let through with which the
cast comes to a parameter that has neither an argument nor a default. -/
theorem Session.calls_bind (s : Session) (p : Prototype) (sub : String → Cell → Attempt Value)
    (root : String) :
    (p.DefaultsLast → ∀ text call, Call.parse text = .ok call →
      s.defs.prototypes.find? call.name = some p →
      (call.args.length < p.required → s.defs.castCall sub root (.text text) =
        throw (castFault text root
          (p.signature ++ " takes at least " ++ Text.natText p.required ++ " arguments"))) ∧
      (p.params.length < call.args.length → s.defs.castCall sub root (.text text) =
        throw (castFault text root
          (p.signature ++ " takes at most " ++ Text.natText p.params.length ++ " arguments"))) ∧
      (p.required ≤ call.args.length → call.args.length ≤ p.params.length →
        ∃ texts : List String, texts.length = p.params.length ∧
          (∀ i : Nat, texts[i]? = call.args[i]?.or (p.params[i]?.bind Parameter.default)) ∧
          s.defs.castCall sub root (.text text) =
            .call call.name <$> (p.params.zip texts).mapM (fun b => sub b.1.type (.text b.2)) ∧
          (∀ v, (s.defs.castCall sub root (.text text)).run.fresh = .ok v ↔
            ∃ args, v = .call call.name args ∧ List.Forall₂
              (fun b a => (sub b.1.type (.text b.2)).run.fresh = .ok a) (p.params.zip texts) args) ∧
          ∀ e, (s.defs.castCall sub root (.text text)).run.fresh = .error e ↔
            ∃ before b after, p.params.zip texts = before ++ b :: after ∧
              (∀ b ∈ before, ∃ a, (sub b.1.type (.text b.2)).run.fresh = .ok a) ∧
              (sub b.1.type (.text b.2)).run.fresh = .error e)) ∧
    ∀ (m : Memory) (found : List Diagnostic), m.Meets s.exact →
      ((Check.parametersFaults s p none p.params).run.run m).1 = .ok found →
      ((∃ q first, Check.missingDefault p q first ∈ found) ↔ ¬ p.DefaultsLast) ∧
      ((∃ q first, Check.missingDefault p q first ∈ found) →
        ∃ k before q after, p.required ≤ k ∧ k ≤ p.params.length ∧
          p.params = before ++ q :: after ∧ k ≤ before.length ∧ q.default = none ∧
          ∀ text call, Call.parse text = .ok call → s.defs.prototypes.find? call.name = some p →
            call.args.length = k →
            ∃ texts : List String, texts.length = before.length ∧
              (∀ i : Nat, texts[i]? = call.args[i]?.or (before[i]?.bind Parameter.default)) ∧
              s.defs.castCall sub root (.text text) =
                ((before.zip texts).mapM fun b => sub b.1.type (.text b.2)) >>= (fun _ =>
                  throw (castFault text root ("parameter '" ++ q.name ++ "' has no default"))) ∧
              ((∀ b ∈ before.zip texts, ∃ a, (sub b.1.type (.text b.2)).run.fresh = .ok a) →
                (s.defs.castCall sub root (.text text)).run.fresh =
                  .error (castFault text root
                    ("parameter '" ++ q.name ++ "' has no default")))) := by
  refine ⟨fun hlast text call hcall hp => ⟨fun hfew => ?_, fun hmany => ?_, fun hleast hmost => ?_⟩,
    fun m found hm hfound => ?_⟩
  · rw [Definitions.castCall_text hcall hp, if_pos hfew]
  · have hleast : p.required ≤ call.args.length := p.required_le.trans (Nat.le_of_lt hmany)
    rw [Definitions.castCall_text hcall hp, if_neg (Nat.not_lt.2 hleast), if_pos hmany]
  · obtain ⟨texts, hlength, htexts, hcast⟩ :=
      Definitions.castCall_of_defaultsLast sub root hlast hcall hp hleast hmost
    exact ⟨texts, hlength, htexts, hcast, Definitions.fresh_castCall_of_bound hcast⟩
  · rw [((Check.plain_parametersFaults s p none p.params).run hm).1] at hfound
    have hflagged := Check.missingDefault_mem_iff hfound
    refine ⟨hflagged, fun h => ?_⟩
    obtain ⟨before, q, after, hparams, hle, hq, hdefault⟩ :=
      Prototype.exists_missing (hflagged.1 h)
    refine ⟨p.required, before, q, after, Nat.le_refl _, p.required_le, hparams, hle, hq,
      fun text call hcall hp hk => ?_⟩
    rw [← hk] at hle hdefault
    obtain ⟨texts, hlength, htexts, hbound⟩ := exists_texts hle hdefault
    have hcast : s.defs.castCall sub root (.text text) = _ :=
      Definitions.castCall_of_missing hcall hp hparams (Nat.le_of_eq hk.symm) hle hdefault hq
    rw [hbound] at hcast
    refine ⟨texts, hlength, htexts, hcast, fun hbefore => ?_⟩
    obtain ⟨args, hargs⟩ := Except.exists_mapM_ok hbefore
    rw [hcast, fresh_bind_run, fresh_mapM_run, hargs]
    rfl

/-- A function whose default comes last. -/
def lerp : Prototype where
  name := "Lerp"
  params := [{ name := "from", type := "int" }, { name := "to", type := "int" },
    { name := "step", type := "int", default := some "1" }]

/-- A function whose default comes first. -/
def clamp : Prototype where
  name := "Clamp"
  params := [{ name := "low", type := "int", default := some "0" },
    { name := "high", type := "int" }]

/-- A session with both functions. -/
def drawing : Session where
  defs.prototypes := .ofList [("Lerp", lerp), ("Clamp", clamp)]

/-- A call of the one function is bound to its arguments and its default, and a call of the other
comes to the parameter that has neither. -/
theorem drawing_calls_bind :
    (drawing.defs.castCall drawing.defs.cast "dsl" (.text "Lerp(2, 8)") = .call "Lerp" <$>
      (lerp.params.zip ["2", "8", "1"]).mapM fun b => drawing.defs.cast b.1.type (.text b.2)) ∧
    drawing.defs.castCall drawing.defs.cast "dsl" (.text "Clamp(5)") =
      ((clamp.params.take 1).zip ["5"]).mapM (fun b => drawing.defs.cast b.1.type (.text b.2)) >>=
        fun _ => throw (castFault "Clamp(5)" "dsl" "parameter 'high' has no default") := by
  constructor
  · obtain ⟨-, -, hbound⟩ := (drawing.calls_bind lerp drawing.defs.cast "dsl").1 (by decide)
      "Lerp(2, 8)" ⟨"Lerp", ["2", "8"]⟩ (by rfl) (by rfl)
    obtain ⟨texts, hlength, htexts, hcast, -⟩ := hbound (by decide) (by decide)
    have heq : texts = ["2", "8", "1"] := by
      refine List.ext_getElem? fun i => ?_
      rw [htexts]
      match i with
      | 0 | 1 | 2 | _ + 3 => rfl
    rw [hcast, heq]
  · have hreported : (Check.parametersFaults drawing clamp none
        clamp.params).run.fresh.toOption.any fun found =>
          decide (Check.missingDefault clamp clamp.params[1] "low" ∈ found) := by
      decide +kernel
    obtain ⟨found, hfound, hmem⟩ := (Option.any_eq_true _ _).1 hreported
    have hrun := ((Check.plain_parametersFaults drawing clamp none clamp.params).run
      (Memory.meets_empty _)).1.trans (Except.toOption_eq_some_iff.1 hfound)
    obtain ⟨-, hmissing⟩ := (drawing.calls_bind clamp drawing.defs.cast "dsl").2 {} found
      (Memory.meets_empty _) hrun
    obtain ⟨k, before, q, after, hleast, -, hparams, hk, hq, hcalls⟩ :=
      hmissing ⟨_, _, of_decide_eq_true hmem⟩
    -- The only parameter without a default stands behind the other.
    match before, hparams with
    | [], hparams => cases hparams; cases hq
    | [low], hparams =>
      cases hparams
      obtain rfl : 1 = k := Nat.le_antisymm hleast hk
      obtain ⟨texts, hlength, htexts, hcast, -⟩ :=
        hcalls "Clamp(5)" ⟨"Clamp", ["5"]⟩ (by rfl) (by rfl) rfl
      have heq : texts = ["5"] := by
        refine List.ext_getElem? fun i => ?_
        rw [htexts]
        match i with
        | 0 | _ + 1 => rfl
      rw [hcast, heq]
      rfl
    | _ :: _ :: before, hparams =>
      have hlength := congrArg List.length hparams
      simp [clamp] at hlength

end TypedSheets
