import TypedSheets.Proofs.Casting.Leaves
import TypedSheets.Proofs.Recall.Notes
import TypedSheets.Proofs.Session.Requests
import TypedSheets.Proofs.Text.Trim

/-!
# Type soundness of casts

A cast that comes to a value comes to a value of its annotation, unless it meets a reference to a
constant: a constant brings a value of its own type. The memory is shared by all casts, so this is
carried by a condition on what is remembered, which every request of a session keeps.

## Main definitions

* `Definitions.Sound` — the condition on the memory: remembered root types are root types, and
  remembered values fit.

## Main results

* `Definitions.castFrom_yields` — a cast comes to values that fit, at every depth.
* `Session.respond_keeps` — every request keeps the memory sound.
* `Definitions.Reaches.inhabits` — type soundness, in every state that workers can reach.

## Design

Casts go through parts by a function `sub`, so that each shape of values has a lemma of its own
about casts whose parts are sound. The recursion is the induction on the depth alone.
-/

namespace TypedSheets

open Recall

namespace Definitions

variable (d : Definitions)

/-- What a sound memory holds: root types of annotations, and values that fit. The texts of columns
are as `R` says. -/
def Sound (R : String → String → List String → Prop) : Condition
  | .root type, root => d.schemas.rootFrom [] type = .ok root
  | .cast type cell, v => d.Fits type cell v
  | .member .., _ => True
  | .realized table column, texts => R table column texts

variable {d} {type root : String} {cell : Cell} {v : Value} {I : Condition}
  {sub : String → Cell → Attempt Value}

/-! ### Values with parts -/

section Parts

variable {f : Flags} (hsub : ∀ t c, Yields I (sub t c) fun v => d.ConstFree t c → d.Inhabits t v)

include hsub

theorem castArray_yields {e : TypeExpr} (h : d.StoredAs type (.array f e))
    (hn : cell.normalize = cell) : Yields I (castArray sub root e cell) (d.Fits type cell) := by
  unfold castArray
  split
  · refine yields_pure (Inhabits.fits (.array h ?_) Value.noConfusion)
    intro v hv
    cases hv
  · rename_i hnull
    refine Yields.map (yields_adapt ((yields_mapM_mem fun item _ => hsub _ _).mono ?_))
    intro items hitems
    refine ⟨Value.noConfusion, fun hparts => .array h ?_⟩
    intro v hv
    obtain ⟨item, hmem, hitem⟩ := hitems v hv
    rw [← hn] at hmem
    exact hitem (hparts _ (.item h (by simpa using hnull) hmem))

theorem castEntry_yields {k w : TypeExpr} {entry : List Char} :
    Yields I (castEntry sub root k w entry) fun e => ∃ a b, Text.cutAt ':' entry = some (a, b) ∧
      (d.ConstFree k.text (partCell a) → d.Inhabits k.text e.1) ∧
      (d.ConstFree w.text (partCell b) → d.Inhabits w.text e.2) := by
  unfold castEntry
  refine orFault_yields.bind ?_
  rintro ⟨a, b⟩ hcut
  refine (hsub _ _).bind fun x hx => ?_
  refine (hsub _ _).bind fun y hy => ?_
  exact yields_pure ⟨a, b, hcut, hx, hy⟩

theorem castMap_yields {k w : TypeExpr} (h : d.StoredAs type (.map f k w))
    (hn : cell.normalize = cell) : Yields I (castMap sub root k w cell) (d.Fits type cell) := by
  unfold castMap
  split
  · refine yields_pure (Inhabits.fits (.map h ?_ ?_) Value.noConfusion)
    · intro e he
      cases he
    · intro e he
      cases he
  · rename_i hnull
    have hnull : cell.isNull = false := by simpa using hnull
    refine Yields.map ((yields_mapM_mem fun entry _ => castEntry_yields hsub).mono ?_)
    intro entries hentries
    refine ⟨Value.noConfusion, fun hparts => .map h ?_ ?_⟩
    · intro e he
      obtain ⟨entry, hmem, a, b, hcut, hk, -⟩ := hentries e he
      rw [← hn] at hmem
      exact hk (hparts _ (.key h hnull hmem hcut))
    · intro e he
      obtain ⟨entry, hmem, a, b, hcut, -, hw⟩ := hentries e he
      rw [← hn] at hmem
      exact hw (hparts _ (.value h hnull hmem hcut))

theorem castGeometry_yields {shape : Geometry} {e : TypeExpr}
    (h : d.StoredAs type (.geometry f shape e)) (hn : cell.normalize = cell) :
    Yields I (castGeometry sub root shape e cell) (d.Fits type cell) := by
  unfold castGeometry
  refine textOf_yields.bind fun text htext => ?_
  rw [← hn] at htext
  refine orFault_yields.bind ?_
  rintro ⟨a, b⟩ hcut
  refine (hsub _ _).bind fun x hx => ?_
  refine (hsub _ _).bind fun y hy => ?_
  refine yields_pure ⟨?_, fun hparts => ?_⟩
  · cases shape <;> exact Value.noConfusion
  · exact .pair h (hx (hparts _ (.first h htext hcut))) (hy (hparts _ (.second h htext hcut)))

theorem castDateRange_yields (h : d.StoredAs type (.primitive f .dateRange)) :
    Yields I (castDateRange sub root cell) (d.Fits type cell) := by
  have hrange (start finish : DateTime) : d.Fits type cell (.dateRange start finish) :=
    Inhabits.fits (.dateRange h start finish) Value.noConfusion
  unfold castDateRange
  refine textOf_yields.bind fun text _ => ?_
  split
  · refine (hsub _ _).bind fun x _ => ?_
    refine (hsub _ _).bind fun y _ => ?_
    split
    · exact yields_pure (hrange _ _)
    · exact yields_throw
  · refine readSpan_yields.bind fun span _ => ?_
    refine orFault_yields.bind fun finish _ => ?_
    exact yields_pure (hrange _ _)

/-- Each parameter of a call has an argument, cast from the text that the parameter is bound to. -/
theorem castArguments_yields {whole : String} (params : List Parameter) (args : List String) :
    Yields I (castArguments sub root whole params args)
      (d.ArgumentsFit (boundTexts params args) params) := by
  induction params generalizing args with
  | nil => exact yields_pure .nil
  | cons p params ih =>
    cases args with
    | nil =>
      unfold castArguments
      refine orFault_yields.bind fun arg harg => ?_
      refine (hsub _ _).bind fun v hv => ?_
      refine (ih []).bind fun vs hvs => ?_
      rw [boundTexts, harg]
      exact yields_pure (hvs.cons hv)
    | cons arg args =>
      unfold castArguments
      refine (hsub _ _).bind fun v hv => ?_
      refine (ih args).bind fun vs hvs => ?_
      exact yields_pure (hvs.cons hv)

theorem castCall_yields (h : d.StoredAs type (.primitive f .call)) (hn : cell.normalize = cell) :
    Yields I (d.castCall sub root cell) (d.Fits type cell) := by
  unfold castCall
  refine textOf_yields.bind fun text htext => ?_
  rw [← hn] at htext
  refine Yields.bind (yields_ofExcept fun call hcall => hcall) fun call hcall => ?_
  split
  · exact yields_fail
  · rename_i p hp
    dsimp only
    split
    · exact yields_throw
    · split
      · exact yields_throw
      · refine Yields.map ((castArguments_yields hsub p.params call.args).mono fun vs hvs => ?_)
        refine ⟨Value.noConfusion, fun hparts => .call h hp hvs.length (hvs.values ?_)⟩
        rintro ⟨q, arg⟩ hb
        exact hparts _ (.argument h htext hcall hp hb)

end Parts

/-! ### Whole casts -/

/-- Cells that are the same without outer blanks have the same parts. -/
theorem Part.congr {c : Cell} {p : String × Cell} (h : d.Part (type, c) p)
    (hc : c.normalize = cell.normalize) : d.Part (type, cell) p := by
  have hnull : c.isNull = cell.isNull := by
    rw [← Cell.isNull_normalize, hc, Cell.isNull_normalize]
  cases h with
  | item h hn hi => exact .item h (hnull ▸ hn) (hc ▸ hi)
  | key h hn hi hcut => exact .key h (hnull ▸ hn) (hc ▸ hi) hcut
  | value h hn hi hcut => exact .value h (hnull ▸ hn) (hc ▸ hi) hcut
  | first h hs hcut => exact .first h (hc ▸ hs) hcut
  | second h hs hcut => exact .second h (hc ▸ hs) hcut
  | start h hs hcut => exact .start h (hc ▸ hs) hcut
  | finish h hs hcut => exact .finish h (hc ▸ hs) hcut
  | argument h hs hcall hp ha => exact .argument h (hc ▸ hs) hcall hp ha

/-- A value fits every cell that is the same without outer blanks. -/
theorem Fits.congr {c : Cell} (h : d.Fits type c v) (hc : c.normalize = cell.normalize) :
    d.Fits type cell v := by
  refine ⟨fun hv => ?_, fun hparts => h.inhabits fun p hp => hparts p (hp.congr hc)⟩
  rw [← Cell.isNull_normalize, ← hc, Cell.isNull_normalize]
  exact h.null hv

variable {R : String → String → List String → Prop}

theorem rootType_yields :
    Yields (d.Sound R) (d.schemas.rootType type)
      fun root => d.schemas.rootFrom [] type = .ok root :=
  yields_remember (q := .root type) (yields_ofExcept fun _ h => h)

/-- A cell is settled when it has no outer blanks, or is a string. -/
def Settled (d : Definitions) (type : String) (cell : Cell) : Prop :=
  cell.normalize = cell ∨ ∃ f, d.StoredAs type (.primitive f .string)

theorem hasStringRoot_yields : Yields (d.Sound R) (d.hasStringRoot type) fun b =>
    b = true → ∃ f, d.StoredAs type (.primitive f .string) := by
  unfold hasStringRoot
  refine rootType_yields.bind fun root hroot => ?_
  refine Yields.bind (yields_ofExcept fun expr hexpr => hexpr) fun expr hexpr => ?_
  split
  · exact yields_pure fun _ => ⟨_, root, hroot, hexpr⟩
  · exact yields_pure fun h => Bool.noConfusion h

theorem settle_yields : Yields (d.Sound R) (d.settle type cell) fun c =>
    c.normalize = cell.normalize ∧ d.Settled type c := by
  unfold settle
  split
  · rename_i s s' hs
    refine hasStringRoot_yields.bind fun b hb => ?_
    split
    · rename_i htrue
      exact yields_pure ⟨rfl, .inr (hb htrue)⟩
    · rw [← hs]
      exact yields_pure ⟨Cell.normalize_normalize _, .inl (Cell.normalize_normalize _)⟩
  · exact yields_pure ⟨Cell.normalize_normalize _, .inl (Cell.normalize_normalize _)⟩

section Whole

variable (hsub : ∀ t c, Yields (d.Sound R) (sub t c) fun v => d.ConstFree t c → d.Inhabits t v)

include hsub

/-- A cell that is not empty comes to a value that fits. -/
theorem castFilled_yields {expr : TypeExpr} (h : d.StoredAs type expr)
    (hn : cell.normalize = cell) :
    Yields (d.Sound R) (d.castFilled sub root expr cell) (d.Fits type cell) := by
  unfold castFilled
  split
  · refine castBool_yields.mono ?_
    rintro v ⟨b, rfl⟩
    exact Inhabits.fits (.bool h b) Value.noConfusion
  · refine castDouble_yields.mono ?_
    rintro v ⟨x, rfl, hx, hs⟩
    exact Inhabits.fits (.float h hx (hs rfl)) Value.noConfusion
  · refine castDouble_yields.mono ?_
    rintro v ⟨x, rfl, hx, -⟩
    exact Inhabits.fits (.double h hx) Value.noConfusion
  · refine castDateTime_yields.mono ?_
    rintro v ⟨t, rfl⟩
    exact Inhabits.fits (.dateTime h t) Value.noConfusion
  · refine castTimeSpan_yields.mono ?_
    rintro v ⟨span, rfl⟩
    exact Inhabits.fits (.timeSpan h span) Value.noConfusion
  · exact castDateRange_yields hsub h
  · exact castCall_yields hsub h hn
  · split
    · rename_i bounds hb
      refine castInteger_yields.mono fun v hv => Inhabits.fits (.integer h hb hv) hv.ne_null
    · exact yields_throw
  · exact castGeometry_yields hsub h hn
  · refine (castEnum_yields fun _ _ => trivial).mono ?_
    rintro v ⟨e, t, rfl, ht, he⟩
    cases e with
    | symbol member => exact Inhabits.fits (.symbol h ht (he member rfl).member) Value.noConfusion
    | integer n => exact Inhabits.fits (.number h ht n) Value.noConfusion
  · exact yields_throw

/-- A cell under a root type comes to a value that fits. -/
theorem castRoot_yields {expr : TypeExpr} (h : d.StoredAs type expr) (hs : d.Settled type cell) :
    Yields (d.Sound R) (d.castRoot sub root expr cell) (d.Fits type cell) := by
  have hnormal : (∀ f, expr ≠ .primitive f .string) → cell.normalize = cell := by
    intro hne
    refine hs.resolve_right ?_
    rintro ⟨f, hf⟩
    exact hne f (h.unique hf)
  unfold castRoot
  split
  · exact castArray_yields hsub h (hnormal fun _ => TypeExpr.noConfusion)
  · exact castMap_yields hsub h (hnormal fun _ => TypeExpr.noConfusion)
  · refine yields_pure ?_
    split
    · exact ⟨fun _ => ⟨rfl, _, h, rfl⟩, fun _ => .null h rfl⟩
    · exact Inhabits.fits (.string h _) Value.noConfusion
  · rename_i harray hmap hstring
    split
    · rename_i hnull
      split
      · rename_i hnullable
        have hadmits : expr.admitsNull = true := by
          unfold TypeExpr.admitsNull
          split <;> simp_all
        exact yields_pure ⟨fun _ => ⟨hnull, expr, h, hadmits⟩, fun _ => .null h hadmits⟩
      · exact yields_fail
    · exact castFilled_yields hsub h (hnormal hstring)

theorem castPlain_yields (hs : d.Settled type cell) :
    Yields (d.Sound R) (d.castPlain sub type cell) (d.Fits type cell) := by
  unfold castPlain
  refine rootType_yields.bind fun root hroot => ?_
  refine Yields.bind (yields_ofExcept fun expr hexpr => hexpr) fun expr hexpr => ?_
  exact castRoot_yields hsub ⟨root, hroot, hexpr⟩ hs

end Whole

/-- At every depth a cast comes to a value that fits, unless the cell refers to a constant.

**Proof sketch.** By induction on the depth. The casts of the parts are casts of one depth less, and
what is remembered of the settled cell fits because the memory is sound. A value that fits the
settled cell fits the cell itself. -/
theorem castFrom_yields (depth : Nat) (trail : Trail) (type : String) (cell : Cell) :
    Yields (d.Sound R) (d.castFrom depth trail type cell) fun v =>
      cell.constRef? = none → d.Fits type cell v := by
  induction depth generalizing trail type cell with
  | zero => exact yields_throw
  | succ depth ih =>
    have hsub (t : String) (c : Cell) : Yields (d.Sound R) (d.castFrom depth trail t c) fun v =>
        d.ConstFree t c → d.Inhabits t v := by
      refine (ih trail t c).mono fun v hv hfree => ?_
      exact (hv hfree.constRef?).inhabits fun p hp => hfree.part hp
    unfold castFrom
    split
    · rename_i link hlink
      have hvoid (v : Value) : cell.constRef? = none → d.Fits type cell v := by
        intro hnone
        rw [hlink] at hnone
        cases hnone
      split
      · exact yields_fail
      · split
        · exact yields_fail
        · exact (ih _ _ _).mono fun v _ => hvoid v
    · refine settle_yields.bind ?_
      rintro c ⟨hc, hs⟩
      refine (yields_remember (q := .cast type c) (castPlain_yields hsub hs)).mono ?_
      exact fun v hv _ => Fits.congr hv hc

/-- A cast comes to a value that fits, unless the cell refers to a constant. -/
theorem cast_yields (type : String) (cell : Cell) :
    Yields (d.Sound R) (d.cast type cell) fun v => cell.constRef? = none → d.Fits type cell v :=
  castFrom_yields _ _ type cell

end Definitions

/-! ### Sessions -/

namespace Session

variable {s : Session} {R : String → String → List String → Prop}

/-- The texts of a column are the texts of its values. -/
theorem mem_columnTexts_iff {table column text : String} :
    text ∈ s.columnTexts table column ↔ ∃ v ∈ s.columnValues table column, v.text = text := by
  rw [columnTexts, List.mem_eraseDups, List.mem_map]

/-- The texts of a column are as `R` says, if the session reads them so. -/
theorem realizedValues_ensures (hR : ∀ t c, R t c (s.columnTexts t c)) (table column : String) :
    Ensures (s.defs.Sound R) (s.realizedValues table column) (R table column) :=
  ⟨⟨hR table column, fun _ h => h⟩, fun _ h => h⟩

/-- Every request keeps the memory sound, and casts are answered by values that fit. -/
theorem respond_keeps (hR : ∀ t c, R t c (s.columnTexts t c)) (r : Request) :
    Keeps (s.defs.Sound R) (s.respond r) := by
  cases r with
  | cast type cell => exact (s.defs.cast_yields type cell).keeps
  | rootType type => exact Definitions.rootType_yields.keeps
  | memberValue enumName member =>
    exact EnumTables.keeps_memberValueFrom (fun _ _ => trivial) [] member
  | evaluate enumName text => exact (EnumTables.evaluate_yields (fun _ _ => trivial) text).keeps
  | realizedValues table column => exact (realizedValues_ensures hR table column).keeps

end Session

namespace Definitions

/-- What is known of the answer to a request: the values of casts fit. -/
def Answers (d : Definitions) : (r : Request) → r.Answer → Prop
  | .cast type cell, a => ∀ v, a = .ok v → cell.constRef? = none → d.Fits type cell v
  | _, _ => True

/-- In every state that workers can reach, the values of finished casts fit. -/
theorem Reaches.fits {d : Definitions} {tasks : List Task} {m : Memory} (h : d.Reaches tasks m)
    {type : String} {cell : Cell} {v : Value} (ht : ⟨.cast type cell, .done (.ok v)⟩ ∈ tasks)
    (hc : cell.constRef? = none) : d.Fits type cell v := by
  have hall := h.ensured (I := d.Sound fun _ _ _ => True) (P := d.Answers) ?_
  · exact hall.2 _ ht v rfl hc
  · rintro s rfl r
    cases r with
    | cast type cell => exact s.defs.cast_yields type cell
    | _ => exact s.respond_keeps (fun _ _ => trivial) _

theorem parse_int : TypeExpr.parse "int" = .ok (.primitive {} .int32) := by
  decide +kernel

theorem parse_nullable_int :
    TypeExpr.parse "int?" = .ok (.primitive { nullable := true } .int32) := by
  decide +kernel

/-- A sequence is stored as a plain integer, nullable if the annotation is. -/
theorem storedAs_sequence (d : Definitions) {type : String} {expr : TypeExpr}
    (hp : TypeExpr.parse type = .ok expr) (hs : expr.sequence = true) :
    d.StoredAs type (.primitive { nullable := expr.nullable } .int32) := by
  have hroot : d.schemas.rootFrom [] type = .ok (if expr.nullable then "int?" else "int") := by
    rw [Schemas.rootFrom, hp]
    simp only [hs, if_true]
  cases hn : expr.nullable with
  | true => exact ⟨"int?", by simpa [hn] using hroot, parse_nullable_int⟩
  | false => exact ⟨"int", by simpa [hn] using hroot, parse_int⟩

/-- The values of a sequence are integers of 32 bits, and the empty one if the annotation is
nullable. -/
theorem Inhabits.of_sequence {d : Definitions} {type : String} {expr : TypeExpr} {v : Value}
    (h : d.Inhabits type v) (hp : TypeExpr.parse type = .ok expr) (hs : expr.sequence = true) :
    (∃ n : Int, v = .int n ∧ -2147483648 ≤ n ∧ n ≤ 2147483647) ∨
      (v = .null ∧ expr.nullable = true) := by
  have hstored := d.storedAs_sequence hp hs
  cases h with
  | null h hn =>
    rw [h.unique hstored] at hn
    exact .inr ⟨rfl, hn⟩
  | integer h hb hv =>
    cases h.unique hstored
    cases hb
    exact .inl hv
  | _ => rename_i h; cases h.unique hstored

/-- **Type soundness of casts.** Whatever workers have asked of sessions with the same definitions,
and in whatever order their steps were taken: a cast that has met no reference to a constant has
come to a value of its annotation. A sequence comes to an integer of 32 bits, or to the empty value
if it is nullable. -/
theorem Reaches.inhabits {d : Definitions} {tasks : List Task} {m : Memory} (h : d.Reaches tasks m)
    {type : String} {cell : Cell} {v : Value} (ht : ⟨.cast type cell, .done (.ok v)⟩ ∈ tasks)
    (hc : d.ConstFree type cell) :
    d.Inhabits type v ∧ ∀ expr, TypeExpr.parse type = .ok expr → expr.sequence = true →
      (∃ n : Int, v = .int n ∧ -2147483648 ≤ n ∧ n ≤ 2147483647) ∨
        (v = .null ∧ expr.nullable = true) := by
  have hv : d.Inhabits type v := (h.fits ht hc.constRef?).inhabits fun p hp => hc.part hp
  exact ⟨hv, fun expr hp hs => hv.of_sequence hp hs⟩

/-- Definitions with a keyed table of items and a call that gives a number of them. -/
def giving : Definitions where
  schemas := Schemas.declare .empty <|
    Schema.push { name := "Item", based := none, group := "Item" }
    { name := "Id", type := "*int", expr := .primitive { key := .primary } .int32, scope := .common,
      inherited := false, parses := by decide +kernel }
  prototypes := Prototypes.declare .empty "Give"
    [{ name := "item", type := "$Item" }, { name := "count", type := "int", default := some "1" }]

/-- A call that leaves an argument to its default, cast on its own. -/
theorem giving_inhabits : ∃ v, giving.Reaches
    [⟨.cast "dsl" (.text "Give(7)"), .done (.ok v)⟩]
    ((giving.cast "dsl" (.text "Give(7)")).run.run {}).2 ∧
    giving.ConstFree "dsl" (.text "Give(7)") ∧ giving.Inhabits "dsl" v := by
  have hok : ((giving.cast "dsl" (.text "Give(7)")).run.run {}).1.isOk = true := by
    rw [fst_run_empty]
    decide +kernel
  cases hv : ((giving.cast "dsl" (.text "Give(7)")).run.run {}).1 with
  | error e => rw [hv] at hok; cases hok
  | ok v =>
    have hreach := Reaches.start.answer { defs := giving } rfl (.cast "dsl" (.text "Give(7)"))
    rw [show ((Session.respond { defs := giving } (.cast "dsl" (.text "Give(7)"))).run {}).1 =
      .ok v from hv] at hreach
    have hdsl : giving.StoredAs "dsl" (.primitive {} .call) :=
      ⟨"dsl", by decide +kernel, by decide +kernel⟩
    have hitem : giving.StoredAs "$Item" (.primitive {} .int32) :=
      ⟨"int", by decide +kernel, by decide +kernel⟩
    have hint : giving.StoredAs "int" (.primitive {} .int32) :=
      ⟨"int", by decide +kernel, by decide +kernel⟩
    have hfree : giving.ConstFree "dsl" (.text "Give(7)") := by
      refine .intro (by decide) fun p hp => ?_
      cases hp with
      | start h | finish h | item h | key h | value h | first h | second h => cases hdsl.unique h
      | @argument _ _ _ s call proto q arg h hs hc hp ha =>
        have htext : (Cell.text "Give(7)").normalize = .text "Give(7)" := by decide +kernel
        have hcall : Call.parse "Give(7)" = .ok ⟨"Give", ["7"]⟩ := by decide +kernel
        cases htext.symm.trans hs
        cases hcall.symm.trans hc
        cases hp
        rcases List.mem_pair.1 ha with hb | hb
        · cases hb
          exact .integer hitem rfl (by decide +kernel)
        · cases hb
          exact .integer hint rfl (by decide +kernel)
    exact ⟨v, hreach, hfree, (hreach.inhabits (List.mem_singleton.2 rfl) hfree).1⟩

end Definitions

end TypedSheets
