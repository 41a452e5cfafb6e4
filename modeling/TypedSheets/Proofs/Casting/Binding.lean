import TypedSheets.Proofs.Casting.Inhabits
import TypedSheets.Proofs.Collections
import TypedSheets.Proofs.Recall.Calls

/-!
# How calls bind their parameters

A call gives texts to the first parameters of its prototype, and behind them the defaults stand in.
How many arguments are enough is said by the number of parameters without a default, wherever these
stand, while arguments are bound from left to right. So the arguments that are enough are bound to
all of them just if the parameters without a default come first.

## Main definitions

* `Prototype.DefaultsLast` — behind a parameter with a default every parameter has one.

## Main results

* `Prototype.defaultsLast_iff` — then every parameter behind the required ones has a default.
* `exists_texts` — parameters whose missing arguments have defaults are bound to one text each.
* `Definitions.castArguments_append` — parameters are cast from left to right.
* `Definitions.castArguments_of_bound` — the texts of such parameters are cast from left to right.
* `Definitions.castArguments_of_missing` — the first other parameter stops the cast.
-/

namespace TypedSheets

namespace Prototype

/-- Behind a parameter with a default every parameter has one. -/
def DefaultsLast (p : Prototype) : Prop :=
  p.params.Pairwise fun q q' => q.default.isSome = true → q'.default.isSome = true

instance (p : Prototype) : Decidable p.DefaultsLast :=
  inferInstanceAs (Decidable (List.Pairwise _ _))

/-- Nothing is required of parameters that all have defaults. -/
theorem countP_eq_zero_iff {params : List Parameter} :
    params.countP (·.default.isNone) = 0 ↔ ∀ q ∈ params, q.default.isSome = true := by
  rw [List.countP_eq_zero]
  refine forall₂_congr fun q _ => ?_
  cases q.default <;> simp

theorem required_le (p : Prototype) : p.required ≤ p.params.length :=
  List.countP_le_length

/-- Defaults come last just if every parameter behind as many as are required has one. -/
theorem defaultsLast_iff (p : Prototype) :
    p.DefaultsLast ↔ ∀ q ∈ p.params.drop p.required, q.default.isSome = true := by
  obtain ⟨name, params⟩ := p
  show params.Pairwise _ ↔ ∀ q ∈ params.drop (params.countP _), _
  induction params with
  | nil => simp
  | cons q qs ih =>
    rw [List.pairwise_cons, ih, List.countP_cons]
    cases hq : q.default with
    | none => simp
    | some text =>
      simp only [Option.isSome_some, forall_const, Option.isNone_some, Bool.false_eq_true, if_false,
        Nat.add_zero]
      cases hcount : qs.countP (·.default.isNone) with
      | zero =>
        rw [countP_eq_zero_iff] at hcount
        simp only [List.drop_zero, List.forall_mem_cons, hq, Option.isSome_some, true_and, and_self]
      | succ n =>
        -- All but the first `n` of the others would have a default, which leaves at most `n`.
        refine iff_of_false (fun h => ?_) fun h => ?_
        · rw [countP_eq_zero_iff.2 h.1] at hcount
          cases hcount
        · have hdrop : (qs.drop n).countP (·.default.isNone) = 0 := countP_eq_zero_iff.2 h
          have htake : (qs.take n).countP (·.default.isNone) ≤ n :=
            Nat.le_trans List.countP_le_length (List.length_take_le n qs)
          rw [← List.take_append_drop n qs, List.countP_append] at hcount
          omega

/-- If defaults do not come last, some parameter behind as many as are required has none, and all
between these and the first such parameter have one. -/
theorem exists_missing {p : Prototype} (h : ¬ p.DefaultsLast) :
    ∃ before q after, p.params = before ++ q :: after ∧ p.required ≤ before.length ∧
      q.default = none ∧ ∀ q' ∈ before.drop p.required, q'.default.isSome = true := by
  rw [defaultsLast_iff] at h
  push Not at h
  obtain ⟨q₀, hq₀, hnone⟩ := h
  have hfind : ((p.params.drop p.required).find? fun q => q.default.isNone).isSome = true :=
    List.find?_isSome.2 ⟨q₀, hq₀, by simpa using hnone⟩
  obtain ⟨q, hq⟩ := Option.isSome_iff_exists.1 hfind
  obtain ⟨hdefault, skipped, after, hsplit, hskipped⟩ := List.find?_eq_some_iff_append.1 hq
  have hlength : (p.params.take p.required).length = p.required :=
    List.length_take_of_le p.required_le
  refine ⟨p.params.take p.required ++ skipped, q, after, ?_, ?_, by simpa using hdefault, ?_⟩
  · rw [List.append_assoc, ← hsplit, List.take_append_drop]
  · rw [List.length_append, hlength]
    exact Nat.le_add_right _ _
  · rw [List.drop_append_of_le_length (Nat.le_of_eq hlength.symm), List.drop_of_length_le
      (Nat.le_of_eq hlength), List.nil_append]
    intro q' hq'
    simpa using hskipped q' hq'

end Prototype

/-- Parameters whose missing arguments have defaults are bound to one text each: the argument in
their place, or else the default. -/
theorem exists_texts {params : List Parameter} {args : List String}
    (hlength : args.length ≤ params.length)
    (hdefault : ∀ q ∈ params.drop args.length, q.default.isSome = true) :
    ∃ texts : List String, texts.length = params.length ∧
      (∀ i : Nat, texts[i]? = args[i]?.or (params[i]?.bind Parameter.default)) ∧
      boundTexts params args = params.zip texts := by
  induction params generalizing args with
  | nil =>
    cases List.eq_nil_of_length_eq_zero (Nat.le_zero.1 hlength)
    exact ⟨[], rfl, fun _ => rfl, rfl⟩
  | cons p params ih =>
    cases args with
    | nil =>
      rw [List.length_nil, List.drop_zero, List.forall_mem_cons] at hdefault
      obtain ⟨text, htext⟩ := Option.isSome_iff_exists.1 hdefault.1
      obtain ⟨texts, hcount, htexts, hbound⟩ := @ih [] (Nat.zero_le _) hdefault.2
      refine ⟨text :: texts, congrArg (· + 1) hcount, fun i => ?_, ?_⟩
      · cases i with
        | zero => exact htext.symm
        | succ i => exact htexts i
      · rw [boundTexts, htext, hbound]
        rfl
    | cons arg args =>
      obtain ⟨texts, hcount, htexts, hbound⟩ := ih (Nat.le_of_succ_le_succ hlength) hdefault
      refine ⟨arg :: texts, congrArg (· + 1) hcount, fun i => ?_, ?_⟩
      · cases i with
        | zero => rfl
        | succ i => exact htexts i
      · rw [boundTexts, hbound]
        rfl

namespace Definitions

variable {d : Definitions} {sub : String → Cell → Attempt Value} {root : String}

/-- Parameters that are bound to texts are cast from left to right, and then those behind them with
the arguments that are left. -/
theorem castArguments_append (whole : String) {before after : List Parameter} {args : List String}
    (hdefault : ∀ q ∈ before.drop args.length, q.default.isSome = true) :
    castArguments sub root whole (before ++ after) args =
      ((boundTexts before args).mapM fun b => sub b.1.type (.text b.2)) >>= fun vs =>
        (vs ++ ·) <$> castArguments sub root whole after (args.drop before.length) := by
  induction before generalizing args with
  | nil =>
    rw [boundTexts, List.mapM_nil, pure_bind]
    exact (id_map _).symm
  | cons p before ih =>
    cases args with
    | nil =>
      rw [List.length_nil, List.drop_zero, List.forall_mem_cons] at hdefault
      obtain ⟨text, htext⟩ := Option.isSome_iff_exists.1 hdefault.1
      rw [List.cons_append, castArguments, boundTexts, htext, @ih [] hdefault.2]
      show _ = ((p, text) :: boundTexts before []).mapM _ >>= _
      simp only [List.mapM_cons, bind_assoc, pure_bind, List.drop_nil, List.cons_append,
        map_eq_pure_bind]
      rfl
    | cons arg args =>
      rw [List.cons_append, castArguments, boundTexts, List.mapM_cons, ih hdefault]
      simp only [bind_assoc, pure_bind, List.length_cons, List.drop_succ_cons, List.cons_append,
        map_eq_pure_bind]

/-- Parameters that are all bound to texts are cast from left to right. -/
theorem castArguments_of_bound (whole : String) {params : List Parameter} {args : List String}
    (hdefault : ∀ q ∈ params.drop args.length, q.default.isSome = true) :
    castArguments sub root whole params args =
      (boundTexts params args).mapM fun b => sub b.1.type (.text b.2) := by
  have happend : castArguments sub root whole (params ++ []) args = _ :=
    castArguments_append whole hdefault
  simpa [castArguments] using happend

/-- The first parameter that has neither an argument nor a default stops the cast, once the texts
before it are cast. -/
theorem castArguments_of_missing (whole : String) {before after : List Parameter} {q : Parameter}
    {args : List String} (hlength : args.length ≤ before.length)
    (hdefault : ∀ q ∈ before.drop args.length, q.default.isSome = true) (hq : q.default = none) :
    castArguments sub root whole (before ++ q :: after) args =
      ((boundTexts before args).mapM fun b => sub b.1.type (.text b.2)) >>= fun _ =>
        throw (castFault whole root ("parameter '" ++ q.name ++ "' has no default")) := by
  rw [castArguments_append whole hdefault, List.drop_of_length_le hlength, castArguments, hq]
  rfl

section Calls

variable {text : String} {call : Call} {p : Prototype} (hcall : Call.parse text = .ok call)
  (hp : d.prototypes.find? call.name = some p)

include hcall hp

/-- What a call of a declared function comes to. -/
theorem castCall_text :
    d.castCall sub root (.text text) =
      if call.args.length < p.required then
        throw (castFault text root
          (p.signature ++ " takes at least " ++ Text.natText p.required ++ " arguments"))
      else if p.params.length < call.args.length then
        throw (castFault text root
          (p.signature ++ " takes at most " ++ Text.natText p.params.length ++ " arguments"))
      else .call call.name <$> castArguments sub root text p.params call.args := by
  have hleast (n : Nat) : p.signature ++ " takes " ++ "at least" ++ " " ++ Text.natText n ++
      " arguments" = p.signature ++ " takes at least " ++ Text.natText n ++ " arguments" := by
    simp [String.ext_iff]
  have hmost (n : Nat) : p.signature ++ " takes " ++ "at most" ++ " " ++ Text.natText n ++
      " arguments" = p.signature ++ " takes at most " ++ Text.natText n ++ " arguments" := by
    simp [String.ext_iff]
  unfold castCall textOf Cell.asText
  simp only [pure_bind, hcall, Attempt.ofExcept, hp, hleast, hmost]

/-- A call with enough arguments, and not too many, of a function whose missing arguments have
defaults: the texts of all parameters are cast from left to right. -/
theorem castCall_of_bound (hleast : p.required ≤ call.args.length)
    (hmost : call.args.length ≤ p.params.length)
    (hdefault : ∀ q ∈ p.params.drop call.args.length, q.default.isSome = true) :
    d.castCall sub root (.text text) = .call call.name <$>
      (boundTexts p.params call.args).mapM fun b => sub b.1.type (.text b.2) := by
  rw [castCall_text hcall hp, if_neg (Nat.not_lt.2 hleast), if_neg (Nat.not_lt.2 hmost),
    castArguments_of_bound text hdefault]

/-- A call with enough arguments of a function whose first missing argument without a default is
that of `q`: the cast stops there, once the texts before are cast. -/
theorem castCall_of_missing {before after : List Parameter} {q : Parameter}
    (hparams : p.params = before ++ q :: after) (hleast : p.required ≤ call.args.length)
    (hlength : call.args.length ≤ before.length)
    (hdefault : ∀ q ∈ before.drop call.args.length, q.default.isSome = true)
    (hq : q.default = none) :
    d.castCall sub root (.text text) =
      ((boundTexts before call.args).mapM fun b => sub b.1.type (.text b.2)) >>= fun _ =>
        throw (castFault text root ("parameter '" ++ q.name ++ "' has no default")) := by
  have hmost : call.args.length ≤ p.params.length := by
    rw [hparams, List.length_append]
    omega
  rw [castCall_text hcall hp, if_neg (Nat.not_lt.2 hleast), if_neg (Nat.not_lt.2 hmost), hparams,
    castArguments_of_missing text hlength hdefault hq, map_bind]
  rfl

end Calls

end Definitions

end TypedSheets
