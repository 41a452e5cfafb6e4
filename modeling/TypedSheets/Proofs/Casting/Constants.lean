import TypedSheets.Proofs.Casting.Strict
import TypedSheets.Proofs.Relation.Expansion

/-!
# References to constants

A cast follows references to constants, in the cell and in the texts inside it, and tells by the
trail of those that it follows when one leads back to itself. The trail is no part of what a
constant is; without such a constant it makes no difference. With one, a cast cannot succeed: on the
way inward the trail only grows, and it holds the constant when the cast comes to it again.

## Main definitions

* `Definitions.Mentions` — the constants that a cell leads to.
* `Definitions.Recurs`, `Definitions.Untangled` — a constant that leads back to itself, and a cell
  that leads to none.
* `Definitions.Follows` — the cell that references lead to.
* `Definitions.CastsTo` — what a cast comes to that workers have begun.

## Main results

* `Definitions.Untangled.values_eq` — the trail makes no difference without a cycle.
* `Definitions.untangled_of_values` — a cast that succeeds comes to no cycle.
* `Definitions.exists_follows` — a value stems from a cell that is no reference.
* `Definitions.errorsIn_reports` — the cycles that are reported are there.
* `Definitions.Reaches.constants_resolve` — how references to constants are resolved.
-/

namespace TypedSheets.Definitions

open Recall

variable {I : Condition} {d : Definitions} {trail : Trail} {n : Nat} {x y : Slot} {v : Value}
  {link : String × String} {constant : Constant}

/-- A cell leads to a constant: the cast comes to a reference to it. -/
def Mentions (d : Definitions) (x : Slot) (link : String × String) : Prop :=
  ∃ y, d.Meets x y ∧ y.2.constRef? = some link

/-- A constant leads back to itself. -/
def Recurs (d : Definitions) (link : String × String) : Prop :=
  ∃ constant, d.consts.find? link = some constant ∧ d.Mentions (constant.type, constant.value) link

/-- A cell leads to no constant that leads back to itself. -/
def Untangled (d : Definitions) (x : Slot) : Prop :=
  ∀ link, d.Mentions x link → ¬ d.Recurs link

theorem Mentions.of_enters (h : d.Mentions y link) (hxy : d.Enters x y) : d.Mentions x link := by
  obtain ⟨z, hz, hlink⟩ := h
  exact ⟨z, hz.head hxy, hlink⟩

theorem mentions_self (hlink : x.2.constRef? = some link) : d.Mentions x link :=
  ⟨x, .refl, hlink⟩

theorem Untangled.of_enters (h : d.Untangled x) (hxy : d.Enters x y) : d.Untangled y :=
  fun link hlink => h link (hlink.of_enters hxy)

/-- All references to a constant have one value, whatever annotations they stand under. -/
theorem values_eq_of_constRef (hx : x.2.constRef? = some link) (hy : y.2.constRef? = some link) :
    d.values trail n x = d.values trail n y := by
  cases n with
  | zero => rfl
  | succ n =>
    cases hconst : d.consts.find? link with
    | none => rw [values_of_undefined hx hconst, values_of_undefined hy hconst]
    | some constant =>
      by_cases hmem : link ∈ trail
      · rw [values_of_cycle hx hconst hmem, values_of_cycle hy hconst hmem]
      · rw [values_of_link hx hconst hmem, values_of_link hy hconst hmem]

/-! ### Without a cycle -/

/-- The trail makes no difference to a cell that leads neither to a constant of the trail nor to one
that leads back to itself. -/
theorem Untangled.values_eq (hI : d.RemembersNames I) (h : d.Untangled x)
    (htrail : ∀ link ∈ trail, ¬ d.Mentions x link) : d.values trail n x = d.freeValues n x := by
  induction n generalizing trail x with
  | zero => rfl
  | succ n ih =>
    cases hlink : x.2.constRef? with
    | none =>
      rw [values_of_plain hI hlink, freeValues_of_plain hlink]
      refine plainValue_congr fun y hy => ?_
      have hxy : d.Enters x y := .part hlink hy
      exact ih (h.of_enters hxy) fun l hl hmention => htrail l hl (hmention.of_enters hxy)
    | some link =>
      have hself : d.Mentions x link := mentions_self hlink
      cases hconst : d.consts.find? link with
      | none => rw [values_of_undefined hlink hconst, freeValues_of_undefined hlink hconst]
      | some constant =>
        rw [values_of_link hlink hconst fun hmem => htrail link hmem hself,
          freeValues_of_link hlink hconst]
        have hxy : d.Enters x (constant.type, constant.value) := .const hlink hconst
        refine ih (h.of_enters hxy) fun l hl hmention => ?_
        rcases List.mem_append.1 hl with hl | hl
        · exact htrail l hl (hmention.of_enters hxy)
        · cases List.mem_singleton.1 hl
          exact h link hself ⟨constant, hconst, hmention⟩

/-- Without a cycle, a reference to a constant has the value of the constant. -/
theorem Untangled.values_of_link (hI : d.RemembersNames I) (h : d.Untangled x)
    (hlink : x.2.constRef? = some link) (hconst : d.consts.find? link = some constant) :
    d.values [] (n + 1) x = d.values [] n (constant.type, constant.value) := by
  have hconstant : d.Untangled (constant.type, constant.value) :=
    h.of_enters (.const hlink hconst)
  have hself : ¬ d.Mentions (constant.type, constant.value) link :=
    fun hmention => h link (mentions_self hlink) ⟨constant, hconst, hmention⟩
  rw [Definitions.values_of_link hlink hconst List.not_mem_nil, List.nil_append,
    hconstant.values_eq hI (List.forall_mem_singleton.2 hself),
    hconstant.values_eq hI (List.forall_mem_nil _)]

/-! ### Success -/

/-- On the way inward from a cell that has a value the trail only grows, and constants that are
entered are on it. -/
theorem Enters.exists_value (hI : d.RemembersNames I) (hxy : d.Enters x y)
    (h : d.values trail n x = .ok v) :
    ∃ trail' m w, trail ⊆ trail' ∧ d.values trail' m y = .ok w ∧
      ∀ link, x.2.constRef? = some link → link ∉ trail ∧ link ∈ trail' := by
  cases n with
  | zero => cases h
  | succ n =>
    cases hxy with
    | part plain hpart =>
      rw [values_of_plain hI plain] at h
      obtain ⟨w, hw⟩ := exists_of_plainValue_part h hpart
      refine ⟨trail, n, w, List.Subset.refl trail, hw, fun link hlink => ?_⟩
      rw [plain] at hlink
      cases hlink
    | @const link constant hlink hconst =>
      have hnew : link ∉ trail := by
        intro hmem
        rw [values_of_cycle hlink hconst hmem] at h
        cases h
      rw [values_of_link hlink hconst hnew] at h
      refine ⟨trail ++ [link], n, v, List.subset_append_left _ _, h, fun link' hlink' => ?_⟩
      cases hlink.symm.trans hlink'
      exact ⟨hnew, List.mem_append_right _ (List.mem_singleton_self link)⟩

/-- Every cell that the cast of a cell with a value comes to has a value, while the same constants
and perhaps more are being followed. -/
theorem exists_value_of_meets (hI : d.RemembersNames I) (hxy : d.Meets x y)
    (h : d.values trail n x = .ok v) :
    ∃ trail' m w, trail ⊆ trail' ∧ d.values trail' m y = .ok w := by
  induction hxy with
  | refl => exact ⟨trail, n, v, List.Subset.refl trail, h⟩
  | tail _ hyz ih =>
    obtain ⟨trail', m, w, hsub, hw⟩ := ih
    obtain ⟨trail'', m', w', hsub', hw', -⟩ := hyz.exists_value hI hw
    exact ⟨trail'', m', w', List.Subset.trans hsub hsub', hw'⟩

/-- **A cast that succeeds comes to no constant that leads back to itself.** The trail would hold
the constant when the cast comes to it again. -/
theorem untangled_of_values (hI : d.RemembersNames I) (h : d.values trail n x = .ok v) :
    d.Untangled x := by
  rintro link ⟨y, hxy, hlink⟩ ⟨constant, hconst, z, hz, hlink'⟩
  obtain ⟨trail₁, n₁, v₁, -, hy⟩ := exists_value_of_meets hI hxy h
  have henters : d.Enters y (constant.type, constant.value) := .const hlink hconst
  have hagain : d.Enters z (constant.type, constant.value) := .const hlink' hconst
  obtain ⟨trail₂, n₂, v₂, -, hconstant, hon⟩ := henters.exists_value hI hy
  obtain ⟨trail₃, n₃, v₃, hsub, hvalue⟩ := exists_value_of_meets hI hz hconstant
  obtain ⟨_, _, _, -, -, hoff⟩ := hagain.exists_value hI hvalue
  exact (hoff link hlink').1 (hsub (hon link hlink).2)

/-! ### Where references lead -/

/-- A cell comes to another one by references to constants: it is that cell and no reference, or the
constant that it refers to comes there. -/
inductive Follows (d : Definitions) : Slot → Slot → Prop
  | here {x : Slot} (plain : x.2.constRef? = none) : Follows d x x
  | const {x y : Slot} {link : String × String} {constant : Constant}
      (hlink : x.2.constRef? = some link) (hconst : d.consts.find? link = some constant)
      (h : Follows d (constant.type, constant.value) y) : Follows d x y

/-- References lead to one cell at most. -/
theorem Follows.unique {z : Slot} (hy : d.Follows x y) (hz : d.Follows x z) : y = z := by
  induction hy with
  | here plain =>
    cases hz with
    | here => rfl
    | const hlink =>
      rw [plain] at hlink
      cases hlink
  | const hlink hconst _ ih =>
    cases hz with
    | here plain =>
      rw [plain] at hlink
      cases hlink
    | const hlink' hconst' h =>
      cases hlink.symm.trans hlink'
      cases hconst.symm.trans hconst'
      exact ih h

/-- **A value stems from a cell that is no reference**, to which references lead and which has that
value itself. -/
theorem exists_follows (hI : d.RemembersNames I) (h : d.values [] n x = .ok v) :
    ∃ y, d.Follows x y ∧ (d.cast y.1 y.2).run.fresh = .ok v := by
  induction n generalizing x with
  | zero => cases h
  | succ n ih =>
    cases hlink : x.2.constRef? with
    | none =>
      refine ⟨x, .here hlink, ?_⟩
      rw [cast_eq_of_values hI (n := n + 1) (by rw [h]; exact nofun), h]
    | some link =>
      cases hconst : d.consts.find? link with
      | none =>
        rw [values_of_undefined hlink hconst] at h
        cases h
      | some constant =>
        rw [(untangled_of_values hI h).values_of_link hI hlink hconst] at h
        obtain ⟨y, hy, hvalue⟩ := ih h
        exact ⟨y, .const hlink hconst hy, hvalue⟩

/-! ### Reports -/

/-- A failure that names a cycle of constants names one that a cell leads to: the constants that
have been followed, and again one of them, which leads back to itself. -/
def Reports (d : Definitions) (x : Slot) (f : Failure) : Prop :=
  f.Acyclic ∨ ∃ followed link, f = constantCycle (followed ++ [link]) ∧ link ∈ followed ∧
    (∀ l ∈ followed, d.Mentions x l) ∧ d.Recurs link

/-- **The cycles that are reported are there.** The cast of the cell `x` has come to `y`, and every
constant of the trail has been met and leads to `y`. -/
theorem errorsIn_reports (hI : d.RemembersNames I) (hxy : d.Meets x y)
    (htrail : ∀ l ∈ trail, d.Mentions x l ∧ ∃ constant, d.consts.find? l = some constant ∧
      d.Meets (constant.type, constant.value) y) :
    (d.values trail n y).ErrorsIn fun e => ∀ f, e = .failure f → d.Reports x f := by
  induction n generalizing trail y with
  | zero => exact .error nofun
  | succ n ih =>
    cases hlink : y.2.constRef? with
    | none =>
      rw [values_of_plain hI hlink]
      refine errorsIn_plainValue ?_ (fun _ => nofun) fun z hz => ?_
      · rintro f hf f' ⟨⟩
        exact .inl hf.acyclic
      · have hyz : d.Enters y z := .part hlink hz
        refine ih (hxy.tail hyz) fun l hl => ?_
        obtain ⟨hmention, constant, hconst, hmeets⟩ := htrail l hl
        exact ⟨hmention, constant, hconst, hmeets.tail hyz⟩
    | some link =>
      have hmention : d.Mentions x link := ⟨y, hxy, hlink⟩
      cases hconst : d.consts.find? link with
      | none =>
        rw [values_of_undefined hlink hconst]
        refine .error ?_
        rintro f ⟨⟩
        exact .inl (ordinary_undefinedConstant _ _).acyclic
      | some constant =>
        by_cases hmem : link ∈ trail
        · rw [values_of_cycle hlink hconst hmem]
          refine .error ?_
          rintro f ⟨⟩
          obtain ⟨-, constant', hconst', hmeets⟩ := htrail link hmem
          exact .inr ⟨trail, link, rfl, hmem, fun l hl => (htrail l hl).1,
            constant', hconst', y, hmeets, hlink⟩
        · rw [values_of_link hlink hconst hmem]
          have hyz : d.Enters y (constant.type, constant.value) := .const hlink hconst
          refine ih (hxy.tail hyz) fun l hl => ?_
          rcases List.mem_append.1 hl with hl | hl
          · obtain ⟨hmention', constant', hconst', hmeets⟩ := htrail l hl
            exact ⟨hmention', constant', hconst', hmeets.tail hyz⟩
          · cases List.mem_singleton.1 hl
            exact ⟨hmention, constant, hconst, .refl⟩

/-! ### Resolution -/

/-- What a cast comes to that workers have begun. -/
def CastsTo (tasks : List Task) (m : Memory) (x : Slot) (a : Except Halt Value) : Prop :=
  ∃ c : Recall (Except Halt Value), ⟨.cast x.1 x.2, c⟩ ∈ tasks ∧ (c.run m).1 = a

variable {tasks : List Task} {m : Memory} {a : Except Halt Value}

theorem Reaches.castsTo (h : d.Reaches tasks m) {c : Recall (Except Halt Value)}
    (hc : ⟨.cast x.1 x.2, c⟩ ∈ tasks) : CastsTo tasks m x (d.cast x.1 x.2).run.fresh :=
  ⟨c, hc, h.transparent.1 x.1 x.2 c hc⟩

theorem CastsTo.eq (h : d.Reaches tasks m) (ha : CastsTo tasks m x a) :
    a = d.values [] (d.depthBound x.1 x.2) x := by
  obtain ⟨c, hc, rfl⟩ := ha
  exact h.transparent.1 x.1 x.2 c hc

/-- A cast that has been begun comes to what it comes to at every depth that is large enough. -/
theorem CastsTo.eq_values (h : d.Reaches tasks m) (hg : d.Grounded) (ha : CastsTo tasks m x a)
    (hn : d.values [] n x ≠ .error .endless) : a = d.values [] n x := by
  have hI := (d.remembers_computed anyTexts).toRemembersNames
  rw [ha.eq h]
  exact (values_lasts hI [] x).eq (hg.cast_ends x.1 x.2) hn

/-- **How references to constants are resolved.** If types and the defaults of parameters do not
recurse without end, then whatever constants refer to, wherever the references stand, whatever has
been asked of sessions with these definitions, and in whatever order the steps were taken: every
cast comes to an end. All references to a constant come to the same, under every annotation, and if
a reference leads to no cycle, to what the value of the constant comes to under the type of the
constant. A cast succeeds only if no constant that the cell leads to leads back to itself. A failure
that names a cycle names constants that the cell leads to, and ends with one that leads back to
itself; so without such a constant no cycle is ever reported, however often a constant is met. -/
theorem Reaches.constants_resolve (h : d.Reaches tasks m) (hg : d.Grounded)
    (ha : CastsTo tasks m x a) :
    a ≠ .error .endless ∧
    (∀ link, x.2.constRef? = some link →
      (∀ y b, y.2.constRef? = some link → CastsTo tasks m y b → b = a) ∧
      ∀ constant, d.consts.find? link = some constant → d.Untangled x →
        ∀ b, CastsTo tasks m (constant.type, constant.value) b → b = a) ∧
    (∀ v, a = .ok v → d.Untangled x) ∧
    (∀ f, a = .error (.failure f) → d.Reports x f) ∧
    (d.Untangled x → ∀ trail, a ≠ .error (.failure (constantCycle trail))) := by
  have hI := (d.remembers_computed anyTexts).toRemembersNames
  have hvalue := ha.eq h
  have hends : d.values [] (d.depthBound x.1 x.2) x ≠ .error .endless := hg.cast_ends x.1 x.2
  have hreports (f : Failure) (hf : a = .error (.failure f)) : d.Reports x f :=
    errorsIn_reports hI .refl (List.forall_mem_nil _) _ (hvalue.symm.trans hf) f rfl
  refine ⟨hvalue ▸ hends, fun link hlink => ⟨fun y b hy hb => ?_, ?_⟩, ?_, hreports, ?_⟩
  · have hsame : d.values [] (d.depthBound x.1 x.2) y = d.values [] (d.depthBound x.1 x.2) x :=
      values_eq_of_constRef hy hlink
    rw [hb.eq_values h hg (hsame ▸ hends), hsame, hvalue]
  · intro constant hconst huntangled b hb
    cases hdepth : d.depthBound x.1 x.2 with
    | zero =>
      rw [hdepth] at hends
      exact absurd rfl hends
    | succ k =>
      have hlink := huntangled.values_of_link hI hlink hconst (n := k)
      rw [hdepth] at hvalue hends
      rw [hb.eq_values h hg (hlink ▸ hends), ← hlink, hvalue]
  · rintro v rfl
    exact untangled_of_values hI hvalue.symm
  · rintro huntangled trail hcycle
    rcases hreports _ hcycle with hacyclic | ⟨followed, link, -, hmem, hmentions, hrecurs⟩
    · exact hacyclic trail rfl
    · exact huntangled link (hmentions link hmem) hrecurs

/-- Constants of a side, of a corner that takes the side twice, and of a ring that is drawn through
the default of a parameter, which leads back to the ring. -/
def shapes : Definitions where
  prototypes := Prototypes.declare .empty "Draw"
    [{ name := "next", type := "dsl", default := some "Const:Shapes:Ring" }]
  consts := Constants.ofList <|
    [("Side", "int", "2"), ("Corner", "point", "Const:Shapes:Side, Const:Shapes:Side"),
      ("Ring", "dsl", "Draw()")].map fun (name, type, value) =>
        { location := { file := "constants", sheet := "Shapes", row := none }, table := "Shapes",
          name, type, scope := .common, value := .text value }

/-- There are no columns in the types of shapes, and what stands in the default refers to a
constant. -/
theorem grounded_shapes : shapes.Grounded := by
  refine grounded_of_types (wellFounded_encloses ?_ ?_) ?_
  · exact fun s hs => absurd hs List.not_mem_nil
  · intro c hc
    obtain ⟨b, -, t, -, hlast⟩ := Relation.TransGen.tail'_iff.1 hc
    exact absurd hlast.mem_columns List.not_mem_nil
  · intro p hp q hq text hdefault
    cases List.mem_singleton.1 hp
    cases List.mem_singleton.1 hq
    cases hdefault
    exact ⟨_, fun y hy => absurd hy.1 (by decide)⟩

/-- With one memory, the corner is cast as a string, then what stands behind it as a point, and the
ring as an integer. The first two come to one point, though the side is met twice; the cycle of the
ring is reported. -/
theorem shapes_resolve :
    let corner : Slot := ("string", .text "Const:Shapes:Corner")
    let behind : Slot := ("point", .text "Const:Shapes:Side, Const:Shapes:Side")
    let ring : Slot := ("int", .text "Const:Shapes:Ring")
    ∃ tasks m v, shapes.Grounded ∧ shapes.Reaches tasks m ∧
      (shapes.Untangled corner ∧ v.text = "2,2" ∧ CastsTo tasks m corner (.ok v) ∧
        CastsTo tasks m behind (.ok v)) ∧
      CastsTo tasks m ring
        (.error (.failure (constantCycle [("Shapes", "Ring"), ("Shapes", "Ring")]))) ∧
      ∃ link, shapes.Mentions ring link ∧ shapes.Recurs link := by
  intro corner behind ring
  have hreach := ((Reaches.start.answer { defs := shapes } rfl (.cast corner.1 corner.2)).answer
    { defs := shapes } rfl (.cast behind.1 behind.2)).answer
    { defs := shapes } rfl (.cast ring.1 ring.2)
  have hcorner := hreach.castsTo (x := corner)
    (List.mem_cons_of_mem _ (List.mem_cons_of_mem _ (List.mem_cons_self ..)))
  have hbehind := hreach.castsTo (x := behind) (List.mem_cons_of_mem _ (List.mem_cons_self ..))
  have hring := hreach.castsTo (x := ring) (List.mem_cons_self ..)
  have hvalue : (shapes.cast corner.1 corner.2).run.fresh.toOption.map Value.text =
      some "2,2" := by
    decide +kernel
  have hcycle : (match (shapes.cast ring.1 ring.2).run.fresh with
      | .error e => some e
      | .ok _ => none) =
      some (.failure (constantCycle [("Shapes", "Ring"), ("Shapes", "Ring")])) := by
    decide +kernel
  cases hf : (shapes.cast corner.1 corner.2).run.fresh with
  | error e =>
    rw [hf] at hvalue
    cases hvalue
  | ok v =>
    rw [hf] at hvalue hcorner
    obtain ⟨-, hresolves, huntangled, -⟩ := hreach.constants_resolve grounded_shapes hcorner
    obtain ⟨-, hsame⟩ := hresolves ("Shapes", "Corner") (by decide +kernel)
    rw [hsame _ rfl (huntangled v rfl) _ hbehind] at hbehind
    cases hg : (shapes.cast ring.1 ring.2).run.fresh with
    | ok v =>
      rw [hg] at hcycle
      cases hcycle
    | error e =>
      rw [hg] at hcycle hring
      cases hcycle
      obtain ⟨-, -, -, hreports, -⟩ := hreach.constants_resolve grounded_shapes hring
      refine ⟨_, _, v, grounded_shapes, hreach,
        ⟨huntangled v rfl, Option.some.inj hvalue, hcorner, hbehind⟩, hring, ?_⟩
      rcases hreports _ rfl with hacyclic | ⟨followed, link, -, hmem, hmentions, hrecurs⟩
      · exact absurd rfl (hacyclic _)
      · exact ⟨link, hmentions link hmem, hrecurs⟩

end TypedSheets.Definitions
