import TypedSheets.Proofs.Enum.Members
import TypedSheets.Session.Casting

/-!
# The parts of a cast

A cast is put together from the casts of its parts, from the root types of annotations and from the
values of enum members; all else about it is computed at once.

## Main definitions

* `Definitions.RemembersNames` — the root types that are remembered, and the values of enum members,
  are those that are computed.

## Main results

* `Definitions.transparent_rootType`, `Definitions.transparent_settle` — root types and the text
  that a cell is cast by need no memory.
* `Definitions.calls_castPlain` — a cast calls for the casts of its parts.
-/

namespace TypedSheets.Definitions

open Recall

variable {I : Condition} {d : Definitions}

/-- A cell under an annotation. -/
abbrev Slot := String × Cell

/-- The casts of parts as a function of annotation and cell. -/
abbrev parts (sub : Slot → Attempt Value) (type : String) (cell : Cell) : Attempt Value :=
  sub (type, cell)

/-! ### Leaves -/

theorem transparent_textOf (root detail : String) (cell : Cell) :
    Transparent I (textOf root detail cell) := by
  unfold textOf
  split <;> rfl

theorem transparent_orFault {α : Type} (value root detail : String) (a : Option α) :
    Transparent I (orFault value root detail a) := by
  cases a <;> rfl

theorem transparent_castInteger (root : String) (bounds : IntegerBounds) (cell : Cell) :
    Transparent I (castInteger root bounds cell) := by
  unfold castInteger
  refine (transparent_textOf ..).bind fun text _ => ?_
  cases bounds with
  | signed least greatest =>
    refine (transparent_orFault ..).bind fun n _ => ?_
    split <;> rfl
  | unsigned greatest =>
    dsimp only
    split
    · split <;> rfl
    · split <;> rfl

theorem transparent_castBool (root : String) (cell : Cell) :
    Transparent I (castBool root cell) := by
  unfold castBool
  dsimp only
  split
  · rfl
  · split
    · rfl
    · split <;> rfl
  · rfl

theorem transparent_castDouble (root : String) (single : Bool) (cell : Cell) :
    Transparent I (castDouble root single cell) := by
  unfold castDouble
  refine (transparent_textOf ..).bind fun text _ => ?_
  refine (transparent_orFault ..).bind fun x _ => ?_
  split
  · rfl
  · split <;> rfl

theorem transparent_castDateTime (root : String) (cell : Cell) :
    Transparent I (castDateTime root cell) := by
  unfold castDateTime
  split
  · rfl
  · exact (transparent_orFault ..).map
  · rfl

theorem transparent_readSpan (text root detail : String) :
    Transparent I (readSpan text root detail) := by
  unfold readSpan
  split
  · exact transparent_orFault ..
  · rfl

theorem transparent_castTimeSpan (root : String) (cell : Cell) :
    Transparent I (castTimeSpan root cell) := by
  unfold castTimeSpan
  split
  · rfl
  · exact (transparent_readSpan ..).map
  · rfl

theorem transparent_castEnum (hI : d.enums.Remembers I) (root name : String) (cell : Cell) :
    Transparent I (d.castEnum root name cell) := by
  unfold castEnum
  split
  · refine (transparent_textOf ..).bind fun text _ => ?_
    exact (EnumTables.transparent_evaluate hI text).map
  · rfl

/-! ### Compound values -/

section Compound

variable (root : String)

theorem calls_castArray (element : TypeExpr) (cell : Cell) :
    Calls I true fun sub => castArray (parts sub) root element cell := by
  unfold castArray
  split
  · exact .pure _
  · refine .map (.through (g := Except.mapError (nestIn cell.display root)) ?_ ?_ ?_)
    · exact .mapM fun item _ => .call (element.text, _)
    · rintro (h | v)
      · cases h with
        | failure f => cases f <;> simp [Except.mapError, nestIn]
        | overflow => simp [Except.mapError, nestIn]
        | endless => simp [Except.mapError, nestIn]
      · simp [Except.mapError]
    · exact fun _ e => ⟨_, rfl⟩

theorem calls_castEntry (key value : TypeExpr) (entry : List Char) :
    Calls I true fun sub => castEntry (parts sub) root key value entry := by
  unfold castEntry
  refine .bind (.known (transparent_orFault ..)) fun (k, v) => ?_
  refine .bind (.call (key.text, _)) fun k => ?_
  exact .bind (.call (value.text, _)) fun v => .pure (k, v)

theorem calls_castMap (key value : TypeExpr) (cell : Cell) :
    Calls I true fun sub => castMap (parts sub) root key value cell := by
  unfold castMap
  split
  · exact .pure _
  · exact .map (.mapM fun entry _ => calls_castEntry root key value entry)

theorem calls_castGeometry (shape : Geometry) (element : TypeExpr) (cell : Cell) :
    Calls I true fun sub => castGeometry (parts sub) root shape element cell := by
  unfold castGeometry
  refine .bind (.known (transparent_textOf ..)) fun text => ?_
  refine .bind (.known (transparent_orFault ..)) fun (a, b) => ?_
  refine .bind (.call (element.text, _)) fun a => ?_
  exact .bind (.call (element.text, _)) fun b => .pure _

theorem calls_castDateRange (cell : Cell) :
    Calls I true fun sub => castDateRange (parts sub) root cell := by
  unfold castDateRange
  refine .bind (.known (transparent_textOf ..)) fun text => ?_
  split
  · refine .bind (.call ("DateTime", _)) fun start => ?_
    refine .bind (.call ("DateTime", _)) fun finish => ?_
    split
    · exact .pure _
    · exact .throw _
  · refine .bind (.known (transparent_readSpan ..)) fun span => ?_
    exact .bind (.known (transparent_orFault ..)) fun finish => .pure _

theorem calls_castArguments (whole : String) (params : List Parameter) (args : List String) :
    Calls I true fun sub => castArguments (parts sub) root whole params args := by
  induction params generalizing args with
  | nil =>
    simp only [castArguments]
    exact .pure _
  | cons p params ih =>
    cases args with
    | nil =>
      simp only [castArguments]
      refine .bind (.known (transparent_orFault ..)) fun arg => ?_
      refine .bind (.call (p.type, _)) fun v => ?_
      exact .bind (ih []) fun vs => .pure _
    | cons arg args =>
      simp only [castArguments]
      refine .bind (.call (p.type, _)) fun v => ?_
      exact .bind (ih args) fun vs => .pure _

theorem calls_castCall (cell : Cell) :
    Calls I true fun sub => d.castCall (parts sub) root cell := by
  unfold castCall
  refine .bind (.known (transparent_textOf ..)) fun text => ?_
  refine .bind (.known (transparent_ofExcept _)) fun call => ?_
  split
  · exact .known (transparent_fail _)
  · split
    · exact .throw _
    · split
      · exact .throw _
      · exact .map (calls_castArguments root text _ _)

theorem calls_castFilled (hI : d.enums.Remembers I) (expr : TypeExpr) (cell : Cell) :
    Calls I true fun sub => d.castFilled (parts sub) root expr cell := by
  unfold castFilled
  split
  · exact .known (transparent_castBool ..)
  · exact .known (transparent_castDouble ..)
  · exact .known (transparent_castDouble ..)
  · exact .known (transparent_castDateTime ..)
  · exact .known (transparent_castTimeSpan ..)
  · exact calls_castDateRange root cell
  · exact calls_castCall root cell
  · split
    · exact .known (transparent_castInteger ..)
    · exact .throw _
  · exact calls_castGeometry ..
  · exact .known (transparent_castEnum hI ..)
  · exact .throw _

theorem calls_castRoot (hI : d.enums.Remembers I) (expr : TypeExpr) (cell : Cell) :
    Calls I true fun sub => d.castRoot (parts sub) root expr cell := by
  unfold castRoot
  split
  · exact calls_castArray root _ cell
  · exact calls_castMap root _ _ cell
  · exact .pure _
  · split
    · split
      · exact .pure _
      · exact .known (transparent_fail _)
    · exact calls_castFilled root hI _ cell

end Compound

/-! ### Whole casts -/

/-- The root types that are remembered, and the values of enum members, are those that are
computed. -/
structure RemembersNames (d : Definitions) (I : Condition) : Prop where
  /-- Root types. -/
  roots : ∀ type root, I (.root type) root ↔ d.schemas.rootFrom [] type = .ok root
  /-- Values of members. -/
  members : d.enums.Remembers I

theorem fresh_ofExcept {α : Type} (r : Except Failure α) :
    (Attempt.ofExcept r).run.fresh = r.mapError .failure := by
  cases r <;> rfl

/-- The root type of an annotation needs no memory. -/
theorem transparent_rootType (hI : d.RemembersNames I) (type : String) :
    Transparent I (d.schemas.rootType type) := by
  refine transparent_remember (fun root => ?_) (transparent_ofExcept _)
  rw [hI.roots, fresh_ofExcept]
  cases d.schemas.rootFrom [] type <;> simp [Except.mapError]

theorem transparent_hasStringRoot (hI : d.RemembersNames I) (type : String) :
    Transparent I (d.hasStringRoot type) := by
  unfold hasStringRoot
  refine (transparent_rootType hI type).bind fun root _ => ?_
  refine (transparent_ofExcept _).bind fun expr _ => ?_
  split <;> rfl

/-- The cell that is cast needs no memory. -/
theorem transparent_settle (hI : d.RemembersNames I) (type : String) (cell : Cell) :
    Transparent I (d.settle type cell) := by
  unfold settle
  split
  · refine (transparent_hasStringRoot hI type).bind fun isString _ => ?_
    split <;> rfl
  · rfl

/-- A cast calls for the casts of its parts. -/
theorem calls_castPlain (hI : d.RemembersNames I) (type : String) (cell : Cell) :
    Calls I true fun sub => d.castPlain (parts sub) type cell := by
  unfold castPlain
  refine .bind (.known (transparent_rootType hI type)) fun root => ?_
  refine .bind (.known (transparent_ofExcept _)) fun expr => ?_
  exact calls_castRoot root hI.members expr cell

end TypedSheets.Definitions
