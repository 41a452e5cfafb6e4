import Mathlib.Logic.Relation
import TypedSheets.Session.Casting

/-!
# Values of a type

Which values an annotation has, said without reference to cells. The values are those of the root
type of the annotation; the parts of a value are values of the annotations of the parts. Beside it
stands which texts a cast of a cell meets on its way through containers, pairs and calls.

## Main definitions

* `Definitions.StoredAs` — the type that an annotation is stored as.
* `Definitions.Inhabits` — the values of an annotation.
* `Definitions.Part`, `Definitions.ConstFree` — the texts that a cast meets, and casts that meet no
  reference to a constant.
* `Definitions.Fits`, `Definitions.ArgumentsFit` — what is known of the value of a cell under an
  annotation, and of the arguments of a call.

## Design

The annotation of a part is the canonical text of its type, since this is what parts are cast under.
A part is a pair of an annotation and a cell, so that what a cast meets is what can be reached along
parts.
-/

namespace TypedSheets

/-- Whether a stored type has the empty value. Containers never do, strings always. -/
def TypeExpr.admitsNull : TypeExpr → Bool
  | .array .. | .map .. => false
  | .primitive _ .string => true
  | e => e.nullable

/-- The integers within bounds. -/
def IntegerBounds.Admits : IntegerBounds → Value → Prop
  | .signed least greatest, v => ∃ n : Int, v = .int n ∧ least ≤ n ∧ n ≤ greatest
  | .unsigned greatest, v => ∃ n : Nat, v = .uint n ∧ n ≤ greatest

theorem IntegerBounds.Admits.ne_null {bounds : IntegerBounds} {v : Value} (h : bounds.Admits v) :
    v ≠ .null := by
  rintro rfl
  cases bounds with
  | signed =>
    obtain ⟨n, hn, -⟩ := h
    cases hn
  | unsigned =>
    obtain ⟨n, hn, -⟩ := h
    cases hn

/-- Parameters with the texts they are bound to: the given ones, and behind them the defaults. -/
def boundTexts : List Parameter → List String → List (Parameter × String)
  | [], _ => []
  | p :: params, arg :: args => (p, arg) :: boundTexts params args
  | p :: params, [] => p.default.toList.map (fun arg => (p, arg)) ++ boundTexts params []

/-- The cell of a text without outer blanks. -/
def partCell (text : List Char) : Cell :=
  .text (String.ofList (Text.trim text))

namespace Definitions

variable (d : Definitions)

/-- The type that an annotation is stored as: its root type, read. -/
def StoredAs (type : String) (expr : TypeExpr) : Prop :=
  ∃ root, d.schemas.rootFrom [] type = .ok root ∧ TypeExpr.parse root = .ok expr

/-- An annotation is stored as one type. -/
theorem StoredAs.unique {d : Definitions} {type : String} {a b : TypeExpr}
    (ha : d.StoredAs type a) (hb : d.StoredAs type b) : a = b := by
  obtain ⟨root, hr, ha⟩ := ha
  obtain ⟨root', hr', hb⟩ := hb
  rw [hr] at hr'
  cases hr'
  rw [ha] at hb
  cases hb
  rfl

/-- The values of an annotation. -/
inductive Inhabits : (type : String) → Value → Prop
  /-- The empty value, where the stored type has it. -/
  | null {type expr} (h : d.StoredAs type expr) (hn : expr.admitsNull = true) :
      Inhabits type .null
  | bool {type f} (h : d.StoredAs type (.primitive f .bool)) (b : Bool) :
      Inhabits type (.bool b)
  /-- An integer of the declared width. -/
  | integer {type f p bounds v} (h : d.StoredAs type (.primitive f p))
      (hp : p.bounds? = some bounds) (hv : bounds.Admits v) : Inhabits type v
  | double {type f x} (h : d.StoredAs type (.primitive f .double)) (hx : x.isFinite = true) :
      Inhabits type (.double x)
  /-- A number of the greater format within the range of the smaller one. -/
  | float {type f x} (h : d.StoredAs type (.primitive f .float)) (hx : x.isFinite = true)
      (hs : x.fitsSingle = true) : Inhabits type (.double x)
  | string {type f} (h : d.StoredAs type (.primitive f .string)) (s : String) :
      Inhabits type (.string s)
  | dateTime {type f} (h : d.StoredAs type (.primitive f .dateTime)) (t : DateTime) :
      Inhabits type (.dateTime t)
  | timeSpan {type f} (h : d.StoredAs type (.primitive f .timeSpan)) (span : Duration) :
      Inhabits type (.timeSpan span)
  | dateRange {type f} (h : d.StoredAs type (.primitive f .dateRange)) (start finish : DateTime) :
      Inhabits type (.dateRange start finish)
  | array {type f e items} (h : d.StoredAs type (.array f e))
      (hi : ∀ v ∈ items, Inhabits e.text v) : Inhabits type (.array items)
  | map {type f k v entries} (h : d.StoredAs type (.map f k v))
      (hk : ∀ e ∈ entries, Inhabits k.text e.1) (hv : ∀ e ∈ entries, Inhabits v.text e.2) :
      Inhabits type (.map entries)
  | point {type f e x y} (h : d.StoredAs type (.geometry f .point e))
      (hx : Inhabits e.text x) (hy : Inhabits e.text y) : Inhabits type (.point x y)
  | size {type f e width height} (h : d.StoredAs type (.geometry f .size e))
      (hw : Inhabits e.text width) (hh : Inhabits e.text height) :
      Inhabits type (.size width height)
  | range {type f e min max} (h : d.StoredAs type (.geometry f .range e))
      (hmin : Inhabits e.text min) (hmax : Inhabits e.text max) : Inhabits type (.range min max)
  /-- A member of the enum, by its name. -/
  | symbol {type f name t member} (h : d.StoredAs type (.enum f name))
      (ht : d.enums.find? name = some t) (hm : t.contains member = true) :
      Inhabits type (.enum (.symbol member))
  /-- A number, which an expression over the members of the enum comes to. -/
  | number {type f name t} (h : d.StoredAs type (.enum f name)) (ht : d.enums.find? name = some t)
      (n : Int64) : Inhabits type (.enum (.integer n))
  /-- A call of a declared function with an argument for each parameter. -/
  | call {type f name p args} (h : d.StoredAs type (.primitive f .call))
      (hp : d.prototypes.find? name = some p) (hl : args.length = p.params.length)
      (ha : ∀ b ∈ p.params.zip args, Inhabits b.1.type b.2) : Inhabits type (.call name args)

variable {d} in
/-- A pair of two values of the type of its components. -/
theorem Inhabits.pair {type : String} {f : Flags} {shape : Geometry} {e : TypeExpr} {a b : Value}
    (h : d.StoredAs type (.geometry f shape e)) (ha : d.Inhabits e.text a)
    (hb : d.Inhabits e.text b) : d.Inhabits type (pairValue shape a b) := by
  cases shape with
  | point => exact .point h ha hb
  | size => exact .size h ha hb
  | range => exact .range h ha hb

/-! ### What a cast meets -/

/-- The texts that a cast of a cell leads to at once, with the annotations they are cast under. -/
inductive Part : String × Cell → String × Cell → Prop
  /-- An element of an array. -/
  | item {type cell f e item} (h : d.StoredAs type (.array f e)) (hn : cell.isNull = false)
      (hi : item ∈ splitElements cell.normalize.display.toList) :
      Part (type, cell) (e.text, .text (String.ofList item))
  /-- The key of an entry of a map. -/
  | key {type cell f k v entry a b} (h : d.StoredAs type (.map f k v)) (hn : cell.isNull = false)
      (hi : entry ∈ splitElements cell.normalize.display.toList)
      (hc : Text.cutAt ':' entry = some (a, b)) : Part (type, cell) (k.text, partCell a)
  /-- The value of an entry of a map. -/
  | value {type cell f k v entry a b} (h : d.StoredAs type (.map f k v)) (hn : cell.isNull = false)
      (hi : entry ∈ splitElements cell.normalize.display.toList)
      (hc : Text.cutAt ':' entry = some (a, b)) : Part (type, cell) (v.text, partCell b)
  /-- The first component of a pair. -/
  | first {type cell f shape e s a b} (h : d.StoredAs type (.geometry f shape e))
      (hs : cell.normalize = .text s) (hc : Text.cutAt (separator shape) s.toList = some (a, b)) :
      Part (type, cell) (e.text, partCell a)
  /-- The second component of a pair. -/
  | second {type cell f shape e s a b} (h : d.StoredAs type (.geometry f shape e))
      (hs : cell.normalize = .text s) (hc : Text.cutAt (separator shape) s.toList = some (a, b)) :
      Part (type, cell) (e.text, partCell b)
  /-- The date that a range starts with. -/
  | start {type cell f s a b} (h : d.StoredAs type (.primitive f .dateRange))
      (hs : cell.normalize = .text s) (hc : Text.cutAt '~' s.toList = some (a, b)) :
      Part (type, cell) ("DateTime", partCell a)
  /-- The date that a range ends with. -/
  | finish {type cell f s a b} (h : d.StoredAs type (.primitive f .dateRange))
      (hs : cell.normalize = .text s) (hc : Text.cutAt '~' s.toList = some (a, b)) :
      Part (type, cell) ("DateTime", partCell b)
  /-- An argument of a call, given or a default. -/
  | argument {type cell f s call p q arg} (h : d.StoredAs type (.primitive f .call))
      (hs : cell.normalize = .text s) (hc : Call.parse s = .ok call)
      (hp : d.prototypes.find? call.name = some p) (ha : (q, arg) ∈ boundTexts p.params call.args) :
      Part (type, cell) (q.type, .text arg)

/-- A cast of a cell meets no reference to a constant, neither in the cell nor in a text inside
it. -/
def ConstFree (type : String) (cell : Cell) : Prop :=
  ∀ p, Relation.ReflTransGen d.Part (type, cell) p → p.2.constRef? = none

/-- What is known of the value of a cell under an annotation: it is empty only if the cell is and
the stored type has the empty value, and without references to constants inside the cell it is a
value of the annotation. -/
structure Fits (type : String) (cell : Cell) (v : Value) : Prop where
  /-- Where the empty value comes from. -/
  null (h : v = .null) :
    cell.isNull = true ∧ ∃ expr, d.StoredAs type expr ∧ expr.admitsNull = true
  /-- Values are of their annotation. -/
  inhabits (h : ∀ p, d.Part (type, cell) p → d.ConstFree p.1 p.2) : d.Inhabits type v

/-- The arguments of a call fit parameters that are bound to texts: there is one for each parameter,
and without references to constants inside the texts they are values of the parameters' types. -/
structure ArgumentsFit (bound : List (Parameter × String)) (params : List Parameter)
    (args : List Value) : Prop where
  /-- One for each parameter. -/
  length : args.length = params.length
  /-- Arguments are of their types. -/
  values (h : ∀ b ∈ bound, d.ConstFree b.1.type (.text b.2)) :
    ∀ b ∈ params.zip args, d.Inhabits b.1.type b.2

variable {d} {type : String} {cell : Cell} {v : Value}

theorem ConstFree.constRef? (h : d.ConstFree type cell) : cell.constRef? = none :=
  h (type, cell) .refl

/-- What is met in a part is met in the whole. -/
theorem ConstFree.part (h : d.ConstFree type cell) {p : String × Cell}
    (hp : d.Part (type, cell) p) : d.ConstFree p.1 p.2 :=
  fun q hq => h q (.head hp hq)

/-- A cast meets no reference to a constant if there is none in the cell and none is met in its
parts. -/
theorem ConstFree.intro (h : cell.constRef? = none)
    (hp : ∀ p, d.Part (type, cell) p → d.ConstFree p.1 p.2) : d.ConstFree type cell := by
  intro q hq
  rcases hq.cases_head with rfl | ⟨p, hpart, hrest⟩
  · exact h
  · exact hp p hpart q hrest

/-- A cell of a primitive type that is no range of dates and no call has no parts. -/
theorem not_part_of_primitive {f : Flags} {p : Primitive}
    (ht : d.StoredAs type (.primitive f p)) (hrange : p ≠ .dateRange) (hcall : p ≠ .call)
    {q : String × Cell} : ¬ d.Part (type, cell) q := by
  intro hq
  cases hq with
  | start h | finish h =>
    cases ht.unique h
    exact hrange rfl
  | argument h =>
    cases ht.unique h
    exact hcall rfl
  | item h | key h | value h | first h | second h => cases ht.unique h

/-- A cast to an integer meets nothing but the cell. -/
theorem ConstFree.integer {f : Flags} {p : Primitive} (ht : d.StoredAs type (.primitive f p))
    (hb : p.bounds?.isSome = true) (h : cell.constRef? = none) : d.ConstFree type cell := by
  refine .intro h fun q hq => absurd hq (not_part_of_primitive ht ?_ ?_)
  · rintro rfl
    cases hb
  · rintro rfl
    cases hb

/-- A value of the annotation other than the empty one fits. -/
theorem Inhabits.fits (h : d.Inhabits type v) (hv : v ≠ .null) : d.Fits type cell v :=
  ⟨fun hn => absurd hn hv, fun _ => h⟩

theorem ArgumentsFit.nil {bound : List (Parameter × String)} : d.ArgumentsFit bound [] [] := by
  refine ⟨rfl, fun _ b hb => ?_⟩
  cases hb

/-- One more parameter with an argument that fits its text. -/
theorem ArgumentsFit.cons {bound : List (Parameter × String)} {p : Parameter}
    {params : List Parameter} {text : String} {args : List Value}
    (h : d.ArgumentsFit bound params args)
    (hv : d.ConstFree p.type (.text text) → d.Inhabits p.type v) :
    d.ArgumentsFit ((p, text) :: bound) (p :: params) (v :: args) := by
  refine ⟨congrArg (· + 1) h.length, fun hfree b hb => ?_⟩
  rw [List.forall_mem_cons] at hfree
  rw [List.zip_cons_cons] at hb
  rcases List.mem_cons.1 hb with rfl | hb
  · exact hv hfree.1
  · exact h.values hfree.2 b hb

end Definitions

end TypedSheets
