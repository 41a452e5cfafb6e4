import TypedSheets.Proofs.Moment.Texts
import TypedSheets.Proofs.Relation.Roots
import TypedSheets.Proofs.Session.Transparency

/-!
# Texts of values

Keys and relations are compared by the texts of values. Under a type without parts the text of a
value tells the value, but for three things that it does not show: the fraction of a second of a
date, what a span has beyond whole units of 100 nanoseconds, and whether the text `null` stands for
the empty value or for a member of an enum of that name.

## Main definitions

* `TypeExpr.isScalar` — truth values, integers, strings, dates, spans and enums.
* `Value.CastUnder` — the values that cells are cast to under such a type.
* `Value.nanos?` — the nanoseconds of the second of a date.
* `Value.Blurs` — two values whose difference no text shows.

## Main results

* `Definitions.castUnder_of_cast` — what a cell that refers to no constant is cast to.
* `Value.CastUnder.text_eq_iff` — values with one text are the same or differ in what is not shown.
* `Definitions.Reaches.sameText_iff` — the same of all casts that sessions make.
* `Definitions.halves_alike` — two dates half a second apart have one text.
-/

namespace TypedSheets

open Recall

/-! ### Scalars -/

/-- The types without parts, other than those of floating-point numbers, date ranges and calls. -/
def TypeExpr.isScalar : TypeExpr → Bool
  | primitive _ .float | primitive _ .double | primitive _ .dateRange | primitive _ .call => false
  | primitive .. | enum .. => true
  | _ => false

namespace Value

/-- The values that cells are cast to under a scalar type. -/
inductive CastUnder : TypeExpr → Value → Prop
  | null {e} : CastUnder e .null
  | bool {f} (b : Bool) : CastUnder (.primitive f .bool) (.bool b)
  | integer {f p bounds v} (hp : p.bounds? = some bounds) (hv : bounds.Admits v) :
      CastUnder (.primitive f p) v
  /-- A string that does not stand for an empty cell. -/
  | string {f s} (hs : s ≠ "null") : CastUnder (.primitive f .string) (.string s)
  | dateTime {f} (t : DateTime) : CastUnder (.primitive f .dateTime) (.dateTime t)
  | timeSpan {f} (d : Duration) : CastUnder (.primitive f .timeSpan) (.timeSpan d)
  | symbol {f name t member} (hm : EnumTables.Symbolic t member) :
      CastUnder (.enum f name) (.enum (.symbol member))
  | number {f name} (n : Int64) : CastUnder (.enum f name) (.enum (.integer n))

/-- The nanoseconds of the second of a date. -/
def nanos? : Value → Option Nat
  | dateTime t => some t.nanos
  | _ => none

/-- Two values whose difference no text shows. -/
inductive Blurs : Value → Value → Prop
  /-- Two dates that agree down to the second. -/
  | dates {t u : DateTime} (h : t.shown = u.shown) : Blurs (.dateTime t) (.dateTime u)
  /-- Two spans that agree in units of 100 nanoseconds. -/
  | spans {d e : Duration} (h : d.shown = e.shown) : Blurs (.timeSpan d) (.timeSpan e)
  /-- The empty value, and a member of the name that empty values have. -/
  | emptySymbol : Blurs .null (.enum (.symbol "null"))
  /-- A member of the name that empty values have, and the empty value. -/
  | symbolEmpty : Blurs (.enum (.symbol "null")) .null

end Value

/-! ### What scalars are cast to -/

theorem ofList_ne_null {text : List Char} {c : Char} (h : c ∈ text) (hc : c ∉ "null".toList) :
    String.ofList text ≠ "null" := by
  intro heq
  rw [← heq, String.toList_ofList] at hc
  exact hc h

/-- A string is cast to the empty value or to a text other than that of the empty value. -/
theorem Cell.display_ne_null {cell : Cell} (h : cell.isNull = false) : cell.display ≠ "null" := by
  cases cell with
  | null => cases h
  | bool b => cases b <;> decide
  | text s =>
    rintro rfl
    exact absurd h (by decide)
  | dateTime t => exact ofList_ne_null (c := ' ') (by simp) (by decide)
  | timeSpan d =>
    unfold display Duration.isoText
    dsimp only
    split
    · decide
    · exact ofList_ne_null (c := 'P') (by simp) (by decide)

theorem Cell.normalize_eq_null {cell : Cell} (h : cell.isNull = true) : cell.normalize = .null := by
  cases cell with
  | null => rfl
  | text s => exact if_pos h
  | bool | dateTime | timeSpan => cases h

namespace Definitions

variable {d : Definitions} {I : Condition} {sub : String → Cell → Attempt Value}
  {type root : String} {expr : TypeExpr} {cell c : Cell} {v : Value}

/-- A cell that is not empty comes to a scalar under a scalar type. -/
theorem castFilled_scalar (hI : ∀ name member n, I (.member name member) n)
    (hexpr : expr.isScalar = true) :
    Yields I (d.castFilled sub root expr cell) (Value.CastUnder expr) := by
  unfold castFilled
  split
  · refine castBool_yields.mono ?_
    rintro v ⟨b, rfl⟩
    exact .bool b
  · cases hexpr
  · cases hexpr
  · refine castDateTime_yields.mono ?_
    rintro v ⟨t, rfl⟩
    exact .dateTime t
  · refine castTimeSpan_yields.mono ?_
    rintro v ⟨span, rfl⟩
    exact .timeSpan span
  · cases hexpr
  · cases hexpr
  · split
    · rename_i bounds hb
      exact castInteger_yields.mono fun v hv => .integer hb hv
    · exact yields_throw
  · cases hexpr
  · refine (castEnum_yields (hI _)).mono ?_
    rintro v ⟨e, t, rfl, -, he⟩
    cases e with
    | symbol member => exact .symbol (he member rfl)
    | integer n => exact .number n
  · exact yields_throw

/-- A cell comes to a scalar under a scalar type, if it is `null` whenever it is empty. -/
theorem castRoot_scalar (hI : ∀ name member n, I (.member name member) n)
    (hexpr : expr.isScalar = true) (hcell : cell.isNull = true → cell = .null) :
    Yields I (d.castRoot sub root expr cell) (Value.CastUnder expr) := by
  unfold castRoot
  split
  · cases hexpr
  · cases hexpr
  · refine yields_pure ?_
    split
    · exact .null
    · rename_i hne
      refine .string (Cell.display_ne_null ?_)
      by_contra hnull
      exact hne (hcell (by simpa using hnull))
  · split
    · split
      · exact yields_pure .null
      · exact yields_fail
    · exact castFilled_scalar hI hexpr

/-- A settled cell is `null` whenever it is empty. -/
theorem eq_null_of_settle (h : (d.settle type cell).run.fresh = .ok c) (hc : c.isNull = true) :
    c = .null := by
  unfold settle at h
  split at h
  · rename_i s s' hs
    rw [fresh_bind_run] at h
    obtain ⟨b, -, h⟩ := Except.exists_of_bind_ok h
    have hsame : c.isNull = (Cell.text s).isNull := by
      cases b with
      | true =>
        cases h
        rfl
      | false =>
        cases h
        rw [← hs, Cell.isNull_normalize]
    cases hs.symm.trans (Cell.normalize_eq_null (hsame ▸ hc))
  · cases h
    rw [Cell.isNull_normalize] at hc
    exact Cell.normalize_eq_null hc

/-- **A cell that refers to no constant is cast to a scalar under a scalar type.** -/
theorem castUnder_of_cast (ht : d.StoredAs type expr) (hexpr : expr.isScalar = true)
    (hcell : cell.constRef? = none) (h : (d.cast type cell).run.fresh = .ok v) :
    Value.CastUnder expr v := by
  obtain ⟨root, hroot, hparse⟩ := ht
  unfold cast at h
  cases hdepth : d.depthBound type cell with
  | zero =>
    rw [hdepth] at h
    cases h
  | succ n =>
    rw [hdepth] at h
    unfold castFrom at h
    rw [hcell, fresh_bind_run] at h
    obtain ⟨c, hc, h⟩ := Except.exists_of_bind_ok h
    rw [fresh_remember, fresh_castPlain hroot hparse] at h
    have hyields : Yields (fun _ _ => True) (d.castRoot (d.castFrom n []) root expr c)
        (Value.CastUnder expr) :=
      castRoot_scalar (fun _ _ _ => trivial) hexpr (eq_null_of_settle hc)
    exact hyields.fresh v h

end Definitions

/-! ### What texts show -/

/-- A number in digits is a numeral. -/
theorem literal?_signedDecimal {n : Int64} (h : 0 ≤ n.toInt) :
    literal? (Text.signedDecimal n.toInt) = some n := by
  obtain ⟨k, hk⟩ := Int.eq_ofNat_of_zero_le h
  have hdigits : ∀ c ∈ Text.decimal k, c.isDigit = true := fun _ => Text.isDigit_of_mem_decimal
  have hread : Text.readInt64 10 (Text.decimal k) = some (k : Int) := by
    have hint : Text.readInt 10 (Text.decimal k) = some (k : Int) := Text.readInt_signedDecimal k
    have hlow := n.le_toInt
    have hhigh := n.toInt_lt
    rw [hk] at hlow hhigh
    rw [Text.readInt64, hint, Option.filter_some, if_pos]
    simp [Text.minInt64, Text.maxInt64]
    omega
  have hnonempty : (Text.decimal k).isEmpty = false := by
    simpa using Text.decimal_ne_nil k
  have hall : (Text.decimal k).all Char.isDigit = true := List.all_eq_true.2 hdigits
  rw [hk]
  show literal? (Text.decimal k) = some n
  rw [literal?, Text.stripHexMark_digits hdigits]
  simp only [hnonempty, hall, hread, Bool.not_false, Bool.and_self, if_true, Option.map_some]
  rw [← hk, Int64.ofInt_toInt]

/-- A symbol is not the text of a number. -/
theorem EnumTables.Symbolic.ne_intText {t : EnumTable} {name : String} (h : Symbolic t name)
    (n : Int64) : name ≠ Text.intText n.toInt := by
  rintro rfl
  by_cases hn : 0 ≤ n.toInt
  · have hword := h.word
    rw [Text.intText, String.toList_ofList, literal?_signedDecimal hn] at hword
    cases hword
  · obtain ⟨k, hk⟩ := Int.eq_negSucc_of_lt_zero (not_le.1 hn)
    have hunsigned := h.unsigned
    rw [hk, Text.intText, String.toList_ofList] at hunsigned
    exact hunsigned rfl

namespace Text

theorem intText_ne_null (n : Int) : intText n ≠ "null" := by
  intro h
  have hnone : readInt 10 "null".toList = none := by decide
  rw [← h, intText, String.toList_ofList, readInt_signedDecimal] at hnone
  cases hnone

theorem natText_ne_null (n : Nat) : natText n ≠ "null" :=
  intText_ne_null n

end Text

theorem DateTime.text_ne_null (t : DateTime) : t.text ≠ "null" :=
  ofList_ne_null (c := ' ') (by simp) (by decide)

theorem Duration.text_ne_null (d : Duration) : d.text ≠ "null" := by
  rw [text_eq]
  exact ofList_ne_null (c := ':') (by simp [lengthText]) (by decide)

namespace Value

variable {e : TypeExpr} {v w : Value}

/-- The text `null` stands for the empty value and for a member of that name. -/
theorem CastUnder.eq_of_text_eq_null (h : CastUnder e v) (hv : v.text = "null") :
    v = .null ∨ v = .enum (.symbol "null") := by
  cases h with
  | null => exact .inl rfl
  | bool b => cases b <;> exact absurd hv (by decide)
  | @integer _ _ bounds _ _ hbounds =>
    cases bounds with
    | signed =>
      obtain ⟨n, rfl, -⟩ := hbounds
      exact absurd hv (Text.intText_ne_null n)
    | unsigned =>
      obtain ⟨n, rfl, -⟩ := hbounds
      exact absurd hv (Text.natText_ne_null n)
  | string hs => exact absurd hv hs
  | dateTime t => exact absurd hv t.text_ne_null
  | timeSpan d => exact absurd hv d.text_ne_null
  | @symbol _ _ _ member _ =>
    have hmember : member = "null" := hv
    exact .inr (by rw [hmember])
  | number n => exact absurd hv (Text.intText_ne_null n.toInt)

theorem Blurs.text_eq (h : v.Blurs w) : v.text = w.text := by
  cases h with
  | dates h => exact DateTime.text_eq_iff.2 h
  | spans h => exact Duration.text_eq_iff.2 h
  | emptySymbol => rfl
  | symbolEmpty => rfl

/-- Values with one text are the same or differ in what the text does not show. -/
theorem CastUnder.eq_or_blurs (hv : CastUnder e v) (hw : CastUnder e w) (h : v.text = w.text) :
    v = w ∨ v.Blurs w := by
  have hempty (hnull : w = .null) : v = w ∨ v.Blurs w := by
    rw [hnull] at h ⊢
    rcases hv.eq_of_text_eq_null h with rfl | rfl
    · exact .inl rfl
    · exact .inr .symbolEmpty
  cases hv with
  | null =>
    rcases hw.eq_of_text_eq_null h.symm with rfl | rfl
    · exact .inl rfl
    · exact .inr .emptySymbol
  | bool b =>
    cases hw with
    | null => exact hempty rfl
    | bool b' => cases b <;> cases b' <;> first | exact .inl rfl | exact absurd h (by decide)
    | integer hp => cases hp
  | @integer _ p bounds _ hp hbounds =>
    cases hw with
    | null => exact hempty rfl
    | integer hp' hbounds' =>
      cases hp.symm.trans hp'
      cases bounds with
      | signed =>
        obtain ⟨n, rfl, -⟩ := hbounds
        obtain ⟨k, rfl, -⟩ := hbounds'
        exact .inl (congrArg _ (Text.intText_injective h))
      | unsigned =>
        obtain ⟨n, rfl, -⟩ := hbounds
        obtain ⟨k, rfl, -⟩ := hbounds'
        exact .inl (congrArg _ (Text.natText_injective h))
    | bool | string | dateTime | timeSpan => cases hp
  | string hs =>
    cases hw with
    | null => exact hempty rfl
    | integer hp => cases hp
    | string hs' => exact .inl (congrArg _ h)
  | dateTime t =>
    cases hw with
    | null => exact hempty rfl
    | integer hp => cases hp
    | dateTime u => exact .inr (.dates (DateTime.text_eq_iff.1 h))
  | timeSpan d =>
    cases hw with
    | null => exact hempty rfl
    | integer hp => cases hp
    | timeSpan d' => exact .inr (.spans (Duration.text_eq_iff.1 h))
  | symbol hm =>
    cases hw with
    | null => exact hempty rfl
    | symbol hm' => exact .inl (congrArg (fun name => Value.enum (.symbol name)) h)
    | number n => exact absurd h (hm.ne_intText n)
  | number n =>
    cases hw with
    | null => exact hempty rfl
    | symbol hm => exact absurd h.symm (hm.ne_intText n)
    | number k =>
      exact .inl (congrArg (fun n => Value.enum (.integer n))
        (Int64.toInt_inj.1 (Text.intText_injective h)))

/-- **Values with one text are the same or differ in what the text does not show.** -/
theorem CastUnder.text_eq_iff (hv : CastUnder e v) (hw : CastUnder e w) :
    v.text = w.text ↔ v = w ∨ v.Blurs w :=
  ⟨hv.eq_or_blurs hw, fun h => h.elim (congrArg _) Blurs.text_eq⟩

end Value

/-! ### Casts of sessions -/

namespace Definitions

variable {d : Definitions} {tasks : List Task} {m : Memory} {type : String} {expr : TypeExpr}
  {cell cell' : Cell} {v w : Value}

theorem Reaches.fresh_cast (h : d.Reaches tasks m)
    (hv : ⟨.cast type cell, .done (.ok v)⟩ ∈ tasks) : (d.cast type cell).run.fresh = .ok v := by
  obtain ⟨-, htasks⟩ := h.ensured ensures_respond
  exact (htasks _ hv).symm

/-- What two casts come to without a memory, they come to in some state of workers. -/
theorem exists_reaches_casts (d : Definitions) (type : String) (cell cell' : Cell) {α : Type}
    (f : Value → α) {a b : α}
    (hv : (d.cast type cell).run.fresh.toOption.map f = some a)
    (hw : (d.cast type cell').run.fresh.toOption.map f = some b) :
    ∃ tasks m v w, d.Reaches tasks m ∧ ⟨.cast type cell, .done (.ok v)⟩ ∈ tasks ∧
      ⟨.cast type cell', .done (.ok w)⟩ ∈ tasks ∧ f v = a ∧ f w = b := by
  have hreach := (Reaches.start.answer { defs := d } rfl (.cast type cell)).answer { defs := d } rfl
    (.cast type cell')
  obtain ⟨-, htasks⟩ := hreach.ensured ensures_respond
  have hfirst : _ = (d.cast type cell).run.fresh :=
    htasks _ (List.mem_cons_of_mem _ (List.mem_singleton.2 rfl))
  have hlast : _ = (d.cast type cell').run.fresh := htasks _ (List.mem_cons_self ..)
  cases hvcast : (d.cast type cell).run.fresh with
  | error e =>
    rw [hvcast] at hv
    cases hv
  | ok v =>
    cases hwcast : (d.cast type cell').run.fresh with
    | error e =>
      rw [hwcast] at hw
      cases hw
    | ok w =>
      rw [hvcast] at hv hfirst
      rw [hwcast] at hw hlast
      refine ⟨_, _, v, w, hreach, ?_, ?_, Option.some.inj hv, Option.some.inj hw⟩
      · rw [← hfirst]
        exact List.mem_cons_of_mem _ (List.mem_singleton.2 rfl)
      · rw [← hlast]
        exact List.mem_cons_self ..

/-- **The text of a scalar tells the value, but for what it does not show.** Whatever workers have
asked of sessions with the same definitions, and in whatever order their steps were taken: two
values that cells without a reference to a constant are cast to, under an annotation that is stored
as a truth value, an integer, a string, an enum, a date or a span, have one text if and only if they
are the same, or are two dates that agree down to the second, two spans that agree in units of 100
nanoseconds, or the empty value and a member named `null`. -/
theorem Reaches.sameText_iff (h : d.Reaches tasks m) (ht : d.StoredAs type expr)
    (hexpr : expr.isScalar = true) (hcell : cell.constRef? = none) (hcell' : cell'.constRef? = none)
    (hv : ⟨.cast type cell, .done (.ok v)⟩ ∈ tasks)
    (hw : ⟨.cast type cell', .done (.ok w)⟩ ∈ tasks) : v.text = w.text ↔ v = w ∨ v.Blurs w :=
  (castUnder_of_cast ht hexpr hcell (h.fresh_cast hv)).text_eq_iff
    (castUnder_of_cast ht hexpr hcell' (h.fresh_cast hw))

/-- A number has one value with and without a sign and zeros in front of it, as its text tells. -/
theorem sevens_sameText : ∃ tasks m v w, ({} : Definitions).Reaches tasks m ∧
    ⟨.cast "int" (.text "+007"), .done (.ok v)⟩ ∈ tasks ∧
    ⟨.cast "int" (.text "7"), .done (.ok w)⟩ ∈ tasks ∧ v.text = "7" ∧ v = w := by
  obtain ⟨tasks, m, v, w, hreach, hv, hw, hvtext, hwtext⟩ :=
    exists_reaches_casts {} "int" (.text "+007") (.text "7") Value.text (a := "7") (b := "7")
      (by decide +kernel) (by decide +kernel)
  have hint : ({} : Definitions).StoredAs "int" (.primitive {} .int32) :=
    ⟨"int", by decide +kernel, by decide +kernel⟩
  have hsame := (hreach.sameText_iff hint rfl (by decide) (by decide) hv hw).1
    (hvtext.trans hwtext.symm)
  refine ⟨tasks, m, v, w, hreach, hv, hw, hvtext, hsame.resolve_right fun hblurs => ?_⟩
  obtain ⟨n, rfl⟩ : ∃ n, v = .int n := by
    cases castUnder_of_cast hint rfl (by decide) (hreach.fresh_cast hv) with
    | null => exact absurd hvtext (by decide)
    | integer hp hbounds =>
      cases hp
      obtain ⟨n, hn, -⟩ := hbounds
      exact ⟨n, hn⟩
  cases hblurs

/-- **Two dates half a second apart have one text.** -/
theorem halves_alike : ({} : Definitions).StoredAs "DateTime" (.primitive {} .dateTime) ∧
    (Cell.text "2024-01-01 00:00:00.5").constRef? = none ∧
    (Cell.text "2024-01-01 00:00:00").constRef? = none ∧
    ∃ tasks m v w, ({} : Definitions).Reaches tasks m ∧
      ⟨.cast "DateTime" (.text "2024-01-01 00:00:00.5"), .done (.ok v)⟩ ∈ tasks ∧
      ⟨.cast "DateTime" (.text "2024-01-01 00:00:00"), .done (.ok w)⟩ ∈ tasks ∧
      v.text = "2024-01-01 00:00:00" ∧ w.text = v.text ∧ v ≠ w := by
  let shape (v : Value) : String × Option Nat := (v.text, v.nanos?)
  obtain ⟨tasks, m, v, w, hreach, hv, hw, hvshape, hwshape⟩ :=
    exists_reaches_casts {} "DateTime" (.text "2024-01-01 00:00:00.5")
      (.text "2024-01-01 00:00:00") shape (a := ("2024-01-01 00:00:00", some 500000000))
      (b := ("2024-01-01 00:00:00", some 0)) (by decide +kernel) (by decide +kernel)
  obtain ⟨hvtext, hvnanos⟩ := Prod.mk.inj hvshape
  obtain ⟨hwtext, hwnanos⟩ := Prod.mk.inj hwshape
  refine ⟨⟨"DateTime", by decide +kernel, by decide +kernel⟩, by decide, by decide, tasks, m, v, w,
    hreach, hv, hw, hvtext, hwtext.trans hvtext.symm, ?_⟩
  rintro rfl
  cases hvnanos.symm.trans hwnanos

end Definitions

end TypedSheets
