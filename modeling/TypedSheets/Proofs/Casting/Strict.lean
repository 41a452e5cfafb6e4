import TypedSheets.Proofs.Casting.Halting

/-!
# Casts that succeed

A cast succeeds only if the casts of all parts of the cell do: nothing that stands in a cell is
passed over.

## Main definitions

* `Attempt.Succeeds` — an attempt comes to a value without a memory.

## Main results

* `Definitions.exists_of_plainValue_part` — a cell has a value only if its parts have.
-/

namespace TypedSheets

open Recall

/-- Without a memory, an attempt comes to a value. -/
def Attempt.Succeeds {α : Type} (a : Attempt α) : Prop :=
  ∃ v, a.run.fresh = .ok v

namespace Attempt

variable {α β ι : Type}

theorem Succeeds.of_bind {a : Attempt α} {f : α → Attempt β} (h : Succeeds (a >>= f)) :
    ∃ x, a.run.fresh = .ok x ∧ Succeeds (f x) := by
  obtain ⟨v, hv⟩ := h
  rw [fresh_bind_run] at hv
  obtain ⟨x, hx, hv⟩ := Except.exists_of_bind_ok hv
  exact ⟨x, hx, v, hv⟩

theorem Succeeds.of_map {a : Attempt α} {f : α → β} (h : Succeeds (f <$> a)) : Succeeds a := by
  rw [← bind_pure_comp] at h
  obtain ⟨x, hx, -⟩ := h.of_bind
  exact ⟨x, hx⟩

theorem Succeeds.of_mapM {f : ι → Attempt α} {l : List ι} (h : Succeeds (l.mapM f)) :
    ∀ i ∈ l, Succeeds (f i) := by
  induction l with
  | nil => exact fun i hi => absurd hi List.not_mem_nil
  | cons i l ih =>
    rw [List.mapM_cons] at h
    obtain ⟨a, ha, h⟩ := h.of_bind
    obtain ⟨as, has, -⟩ := h.of_bind
    exact List.forall_mem_cons.2 ⟨⟨a, ha⟩, ih ⟨as, has⟩⟩

theorem Succeeds.of_adapt {a : Attempt α} {g : Halt → Halt} (h : Succeeds (ExceptT.adapt g a)) :
    Succeeds a := by
  obtain ⟨v, hv⟩ := h
  change (Except.mapError g <$> a.run).fresh = .ok v at hv
  rw [fresh_map] at hv
  cases hrun : a.run.fresh with
  | ok x => exact ⟨x, hrun⟩
  | error e =>
    rw [hrun] at hv
    cases hv

end Attempt

open Attempt

namespace Definitions

variable {d : Definitions} {root type : String} {cell : Cell} {s : String}
  {sub : String → Cell → Attempt Value}

/-! ### Compound values -/

theorem castArray_items {e : TypeExpr} (h : Succeeds (castArray sub root e cell))
    (hnull : cell.isNull = false) :
    ∀ item ∈ splitElements cell.display.toList,
      Succeeds (sub e.text (.text (String.ofList item))) := by
  rw [castArray, if_neg (by simp [hnull])] at h
  exact h.of_map.of_adapt.of_mapM

theorem castMap_parts {k v : TypeExpr} (h : Succeeds (castMap sub root k v cell))
    (hnull : cell.isNull = false) {entry a b : List Char}
    (hentry : entry ∈ splitElements cell.display.toList)
    (hcut : Text.cutAt ':' entry = some (a, b)) :
    Succeeds (sub k.text (partCell a)) ∧ Succeeds (sub v.text (partCell b)) := by
  rw [castMap, if_neg (by simp [hnull])] at h
  have h := h.of_map.of_mapM entry hentry
  rw [castEntry, hcut] at h
  obtain ⟨x, hx, h⟩ := h.of_bind
  cases hx
  obtain ⟨key, hkey, h⟩ := h.of_bind
  obtain ⟨value, hvalue, -⟩ := h.of_bind
  exact ⟨⟨key, hkey⟩, ⟨value, hvalue⟩⟩

theorem castGeometry_parts {shape : Geometry} {e : TypeExpr}
    (h : Succeeds (castGeometry sub root shape e (.text s))) {a b : List Char}
    (hcut : Text.cutAt (separator shape) s.toList = some (a, b)) :
    Succeeds (sub e.text (partCell a)) ∧ Succeeds (sub e.text (partCell b)) := by
  obtain ⟨text, htext, h⟩ := h.of_bind
  cases htext
  obtain ⟨x, hx, h⟩ := h.of_bind
  rw [hcut] at hx
  cases hx
  obtain ⟨first, hfirst, h⟩ := h.of_bind
  obtain ⟨second, hsecond, -⟩ := h.of_bind
  exact ⟨⟨first, hfirst⟩, ⟨second, hsecond⟩⟩

theorem castDateRange_parts (h : Succeeds (castDateRange sub root (.text s))) {a b : List Char}
    (hcut : Text.cutAt '~' s.toList = some (a, b)) :
    Succeeds (sub "DateTime" (partCell a)) ∧ Succeeds (sub "DateTime" (partCell b)) := by
  obtain ⟨text, htext, h⟩ := h.of_bind
  cases htext
  simp only [hcut] at h
  obtain ⟨start, hstart, h⟩ := h.of_bind
  obtain ⟨finish, hfinish, -⟩ := h.of_bind
  exact ⟨⟨start, hstart⟩, ⟨finish, hfinish⟩⟩

theorem castArguments_parts {whole : String} {params : List Parameter} {args : List String}
    (h : Succeeds (castArguments sub root whole params args)) :
    ∀ b ∈ boundTexts params args, Succeeds (sub b.1.type (.text b.2)) := by
  induction params generalizing args with
  | nil => exact fun b hb => absurd hb List.not_mem_nil
  | cons p params ih =>
    cases args with
    | nil =>
      rw [castArguments] at h
      obtain ⟨arg, harg, h⟩ := h.of_bind
      obtain ⟨v, hv, h⟩ := h.of_bind
      obtain ⟨vs, hvs, -⟩ := h.of_bind
      rw [boundTexts, eq_some_of_orFault harg]
      exact List.forall_mem_cons.2 ⟨⟨v, hv⟩, ih ⟨vs, hvs⟩⟩
    | cons arg args =>
      rw [castArguments] at h
      obtain ⟨v, hv, h⟩ := h.of_bind
      obtain ⟨vs, hvs, -⟩ := h.of_bind
      exact List.forall_mem_cons.2 ⟨⟨v, hv⟩, ih ⟨vs, hvs⟩⟩

theorem castCall_parts (h : Succeeds (d.castCall sub root (.text s))) {call : Call}
    (hcall : Call.parse s = .ok call) {p : Prototype}
    (hp : d.prototypes.find? call.name = some p) :
    ∀ b ∈ boundTexts p.params call.args, Succeeds (sub b.1.type (.text b.2)) := by
  obtain ⟨text, htext, h⟩ := h.of_bind
  cases htext
  obtain ⟨call', hcall', h⟩ := h.of_bind
  cases hcall.symm.trans (eq_ok_of_ofExcept hcall')
  simp only [hp] at h
  split at h
  · obtain ⟨v, hv⟩ := h
    cases hv
  · split at h
    · obtain ⟨v, hv⟩ := h
      cases hv
    · exact castArguments_parts h.of_map

/-- A text without outer blanks is cast to what is neither a container nor a string. -/
theorem castRoot_of_text {expr : TypeExpr} (hn : (Cell.text s).normalize = .text s)
    (harray : ∀ f e, expr ≠ .array f e) (hmap : ∀ f k v, expr ≠ .map f k v)
    (hstring : ∀ f, expr ≠ .primitive f .string) :
    d.castRoot sub root expr (.text s) = d.castFilled sub root expr (.text s) := by
  have hfilled : ¬ (Cell.text s).isNull = true := by
    intro hnull
    rw [Cell.isNull] at hnull
    rw [Cell.normalize, if_pos hnull] at hn
    cases hn
  rw [castRoot, if_neg hfilled]
  · exact harray
  · exact hmap
  · exact hstring

/-- A cast of a cell to its stored type succeeds only if those of its parts do. -/
theorem castRoot_parts (hn : cell.normalize = cell) {expr : TypeExpr}
    (hstored : d.StoredAs type expr) (h : Succeeds (d.castRoot sub root expr cell)) {y : Slot}
    (hy : d.Part (type, cell) y) : Succeeds (sub y.1 y.2) := by
  cases hy with
  | item h' hnull hi =>
    cases hstored.unique h'
    rw [hn] at hi
    exact castArray_items h hnull _ hi
  | key h' hnull hi hcut =>
    cases hstored.unique h'
    rw [hn] at hi
    exact (castMap_parts h hnull hi hcut).1
  | value h' hnull hi hcut =>
    cases hstored.unique h'
    rw [hn] at hi
    exact (castMap_parts h hnull hi hcut).2
  | first h' hs hcut =>
    cases hstored.unique h'
    cases hn.symm.trans hs
    rw [castRoot_of_text hn (by simp) (by simp) (by simp)] at h
    exact (castGeometry_parts h hcut).1
  | second h' hs hcut =>
    cases hstored.unique h'
    cases hn.symm.trans hs
    rw [castRoot_of_text hn (by simp) (by simp) (by simp)] at h
    exact (castGeometry_parts h hcut).2
  | start h' hs hcut =>
    cases hstored.unique h'
    cases hn.symm.trans hs
    rw [castRoot_of_text hn (by simp) (by simp) (by simp)] at h
    exact (castDateRange_parts h hcut).1
  | finish h' hs hcut =>
    cases hstored.unique h'
    cases hn.symm.trans hs
    rw [castRoot_of_text hn (by simp) (by simp) (by simp)] at h
    exact (castDateRange_parts h hcut).2
  | argument h' hs hcall hp ha =>
    cases hstored.unique h'
    cases hn.symm.trans hs
    rw [castRoot_of_text hn (by simp) (by simp) (by simp)] at h
    exact castCall_parts h hcall hp _ ha

/-! ### Whole casts -/

/-- The cast of a settled cell succeeds only if those of its parts do. -/
theorem castPlain_parts (hs : d.Settled type cell) (h : Succeeds (d.castPlain sub type cell))
    {y : Slot} (hy : d.Part (type, cell) y) : Succeeds (sub y.1 y.2) := by
  obtain ⟨root, hroot, h⟩ := h.of_bind
  obtain ⟨expr, hexpr, h⟩ := h.of_bind
  rw [Schemas.rootType, fresh_remember] at hroot
  have hstored : d.StoredAs type expr := ⟨root, eq_ok_of_ofExcept hroot, eq_ok_of_ofExcept hexpr⟩
  rcases hs with hn | ⟨f, hstring⟩
  · exact castRoot_parts hn hstored h hy
  · exact absurd hy (not_part_of_primitive hstring (by decide) (by decide))

/-- **A cell has a value only if its parts have.** -/
theorem exists_of_plainValue_part {x y : Slot} {o : Slot → Except Halt Value} {v : Value}
    (h : d.plainValue x o = .ok v) (hy : d.Part x y) : ∃ w, o y = .ok w := by
  obtain ⟨cell, hcell⟩ := exists_of_plainValue h
  obtain ⟨hnormal, hs⟩ := (settle_yields (R := fun _ _ _ => True)).fresh cell hcell
  rw [plainValue_of_ok hcell] at h
  exact castPlain_parts hs ⟨v, h⟩ (hy.congr hnormal.symm)

end Definitions

end TypedSheets
