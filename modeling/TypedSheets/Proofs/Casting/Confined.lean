import TypedSheets.Proofs.Casting.Memory
import TypedSheets.Proofs.Casting.Sound

/-!
# Casts ask for their parts only

The value of a cell depends on the casts of its parts and on no others: casts that agree on the
parts make the same of the cell.

## Main results

* `Definitions.plainValue_congr` — the value of a cell is put together from the values of its parts.
-/

namespace TypedSheets

theorem mem_boundTexts {params : List Parameter} {args : List String} {b : Parameter × String}
    (h : b ∈ boundTexts params args) :
    b.1 ∈ params ∧ (b.2 ∈ args ∨ b.1.default = some b.2) := by
  induction params generalizing args with
  | nil => cases h
  | cons p params ih =>
    cases args with
    | nil =>
      rcases List.mem_append.1 h with h | h
      · obtain ⟨arg, harg, rfl⟩ := List.mem_map.1 h
        exact ⟨List.mem_cons_self .., .inr (by simpa using harg)⟩
      · obtain ⟨hp, hb⟩ := ih h
        exact ⟨List.mem_cons_of_mem p hp, hb⟩
    | cons arg args =>
      rcases List.mem_cons.1 h with rfl | h
      · exact ⟨List.mem_cons_self .., .inl (List.mem_cons_self ..)⟩
      · obtain ⟨hp, hb⟩ := ih h
        exact ⟨List.mem_cons_of_mem p hp, hb.imp_left (List.mem_cons_of_mem arg)⟩

namespace Definitions

open Recall

variable {d : Definitions} {root type : String} {cell : Cell}
  {sub sub' : String → Cell → Attempt Value}

/-- What is made of a text needs to agree on the text of the cell only. -/
theorem textOf_bind_congr {detail : String} {f g : String → Attempt Value}
    (h : ∀ s, cell = .text s → f s = g s) :
    textOf root detail cell >>= f = textOf root detail cell >>= g := by
  cases cell with
  | text s => exact ((pure_bind s f).trans (h s rfl)).trans (pure_bind s g).symm
  | _ => rfl

theorem castArguments_congr (whole : String) {params : List Parameter} {args : List String}
    (hsub : ∀ b ∈ boundTexts params args, sub b.1.type (.text b.2) = sub' b.1.type (.text b.2)) :
    castArguments sub root whole params args = castArguments sub' root whole params args := by
  induction params generalizing args with
  | nil => rfl
  | cons p params ih =>
    cases args with
    | nil =>
      rw [boundTexts, List.forall_mem_append] at hsub
      simp only [castArguments, ih hsub.2]
      cases hdefault : p.default with
      | none => rfl
      | some arg =>
        simp only [orFault, pure_bind]
        rw [hsub.1 (p, arg) (by simp [hdefault])]
    | cons arg args =>
      rw [boundTexts, List.forall_mem_cons] at hsub
      simp only [castArguments, ih hsub.2]
      rw [hsub.1]

section Parts

variable (hn : cell.normalize = cell)
  (hsub : ∀ y, d.Part (type, cell) y → sub y.1 y.2 = sub' y.1 y.2)

include hn hsub

theorem castArray_congr {f : Flags} {e : TypeExpr} (h : d.StoredAs type (.array f e)) :
    castArray sub root e cell = castArray sub' root e cell := by
  unfold castArray
  split
  · rfl
  · rename_i hnull
    have hitems : ∀ item ∈ splitElements cell.display.toList,
        sub e.text (.text (String.ofList item)) = sub' e.text (.text (String.ofList item)) := by
      intro item hitem
      exact hsub _ (.item h (by simpa using hnull) (by rwa [hn]))
    dsimp only
    rw [List.mapM_congr hitems]

theorem castMap_congr {f : Flags} {k v : TypeExpr} (h : d.StoredAs type (.map f k v)) :
    castMap sub root k v cell = castMap sub' root k v cell := by
  unfold castMap
  split
  · rfl
  · rename_i hnull
    have hnull : cell.isNull = false := by simpa using hnull
    have hentries : ∀ entry ∈ splitElements cell.display.toList,
        castEntry sub root k v entry = castEntry sub' root k v entry := by
      intro entry hentry
      rw [← hn] at hentry
      unfold castEntry
      cases hc : Text.cutAt ':' entry with
      | none => rfl
      | some ends =>
        have hkey : sub k.text (partCell ends.1) = sub' k.text (partCell ends.1) :=
          hsub _ (.key h hnull hentry hc)
        have hvalue : sub v.text (partCell ends.2) = sub' v.text (partCell ends.2) :=
          hsub _ (.value h hnull hentry hc)
        unfold partCell at hkey hvalue
        simp only [orFault, pure_bind, hkey, hvalue]
    rw [List.mapM_congr hentries]

theorem castGeometry_congr {f : Flags} {shape : Geometry} {e : TypeExpr}
    (h : d.StoredAs type (.geometry f shape e)) :
    castGeometry sub root shape e cell = castGeometry sub' root shape e cell := by
  unfold castGeometry
  refine textOf_bind_congr fun s hs => ?_
  subst hs
  cases hc : Text.cutAt (separator shape) s.toList with
  | none => rfl
  | some ends =>
    have hfirst : sub e.text (partCell ends.1) = sub' e.text (partCell ends.1) :=
      hsub _ (.first h hn hc)
    have hsecond : sub e.text (partCell ends.2) = sub' e.text (partCell ends.2) :=
      hsub _ (.second h hn hc)
    unfold partCell at hfirst hsecond
    simp only [orFault, pure_bind, hfirst, hsecond]

theorem castDateRange_congr {f : Flags} (h : d.StoredAs type (.primitive f .dateRange)) :
    castDateRange sub root cell = castDateRange sub' root cell := by
  unfold castDateRange
  refine textOf_bind_congr fun s hs => ?_
  subst hs
  cases hc : Text.cutAt '~' s.toList with
  | none => rfl
  | some ends =>
    have hstart : sub "DateTime" (partCell ends.1) = sub' "DateTime" (partCell ends.1) :=
      hsub _ (.start h hn hc)
    have hfinish : sub "DateTime" (partCell ends.2) = sub' "DateTime" (partCell ends.2) :=
      hsub _ (.finish h hn hc)
    unfold partCell at hstart hfinish
    simp only [hstart, hfinish]

theorem castCall_congr {f : Flags} (h : d.StoredAs type (.primitive f .call)) :
    d.castCall sub root cell = d.castCall sub' root cell := by
  unfold castCall
  refine textOf_bind_congr fun s hs => ?_
  subst hs
  cases hc : Call.parse s with
  | error e => rfl
  | ok call =>
    simp only [Attempt.ofExcept, pure_bind]
    cases hp : d.prototypes.find? call.name with
    | none => rfl
    | some p =>
      dsimp only
      rw [castArguments_congr s fun b hb => hsub (b.1.type, .text b.2) (.argument h hn hc hp hb)]

theorem castFilled_congr {expr : TypeExpr} (h : d.StoredAs type expr) :
    d.castFilled sub root expr cell = d.castFilled sub' root expr cell := by
  unfold castFilled
  split
  case h_6 => exact castDateRange_congr hn hsub h
  case h_7 => exact castCall_congr hn hsub h
  case h_9 => exact castGeometry_congr hn hsub h
  all_goals rfl

/-- Casts that agree on the parts make the same of a cell. -/
theorem castRoot_congr {expr : TypeExpr} (h : d.StoredAs type expr) :
    d.castRoot sub root expr cell = d.castRoot sub' root expr cell := by
  unfold castRoot
  split
  · exact castArray_congr hn hsub h
  · exact castMap_congr hn hsub h
  · rfl
  · rw [castFilled_congr hn hsub h]

end Parts

/-! ### Whole casts -/

/-- Casts that agree on the parts make the same of a settled cell. -/
theorem castPlain_congr (hs : d.Settled type cell)
    (hsub : ∀ y, d.Part (type, cell) y → sub y.1 y.2 = sub' y.1 y.2) :
    (d.castPlain sub type cell).run.fresh = (d.castPlain sub' type cell).run.fresh := by
  have hrootType : Yields (d.Sound fun _ _ _ => True) (d.schemas.rootType type) fun root =>
      d.schemas.rootFrom [] type = .ok root := rootType_yields
  unfold castPlain
  rw [fresh_bind_run, fresh_bind_run]
  refine Except.bind_congr_ok fun root hroot => ?_
  rw [fresh_bind_run, fresh_bind_run]
  refine Except.bind_congr_ok fun expr hexpr => ?_
  rw [fresh_ofExcept] at hexpr
  have hexpr : TypeExpr.parse root = .ok expr := by
    cases hparse : TypeExpr.parse root with
    | error f =>
      rw [hparse] at hexpr
      cases hexpr
    | ok e =>
      rw [hparse] at hexpr
      cases hexpr
      rfl
  have hstored : d.StoredAs type expr := ⟨root, hrootType.fresh root hroot, hexpr⟩
  rcases hs with hn | ⟨f, hstring⟩
  · rw [castRoot_congr hn hsub hstored]
  · cases hstored.unique hstring
    rfl

/-- **The value of a cell is put together from the values of its parts.** -/
theorem plainValue_congr {x : Slot} {o o' : Slot → Except Halt Value}
    (h : ∀ y, d.Part x y → o y = o' y) : d.plainValue x o = d.plainValue x o' := by
  cases hcell : (d.settle x.1 x.2).run.fresh with
  | error e => rw [plainValue_of_error hcell, plainValue_of_error hcell]
  | ok cell =>
    obtain ⟨hnormal, hs⟩ := (settle_yields (R := fun _ _ _ => True)).fresh cell hcell
    rw [plainValue_of_ok hcell, plainValue_of_ok hcell]
    refine castPlain_congr hs fun y hy => ?_
    rw [parts, parts, h y (hy.congr hnormal)]

end Definitions

end TypedSheets
