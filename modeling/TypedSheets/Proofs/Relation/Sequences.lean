import TypedSheets.Proofs.Casting.Sound
import TypedSheets.Proofs.Compilation.Rows
import TypedSheets.Proofs.Recall.Notes
import TypedSheets.Proofs.Relation.Roots

/-!
# Relations under sequences

A sequence is stored as a plain integer, also if it is written over a relation: this is how cells
are cast at every depth of an annotation. The checks of relations do not make the difference: they
look for the relations in an annotation and in a value without regard to sequences. So they check
what they would check if the sequences were written as integers, and besides that the relations
under the sequences, and the integers that stand at them.

## Main definitions

* `List.Merged` — a list that is merged from two others.
* `TypeExpr.asIntegers` — an annotation with its sequences written as integers.
* `TypeExpr.sequences`, `Value.atSequences` — the sequences in an annotation, and what a value holds
  at them.

## Main results

* `TypeExpr.sequence_induction` — induction on an annotation that stops at its sequences.
* `Definitions.inhabits_asIntegers_iff` — the values are those of the annotation with integers.
* `Session.merged_positions`, `Check.merged_targetFaults` — what the checks look at besides.
* `Session.marked_as_integers_iff` — when the checks take sequences for integers.
-/

/-! ### Merged lists -/

/-- A list is merged from two others, whose orders are kept. -/
inductive List.Merged {α : Type} : List α → List α → List α → Prop
  | nil : Merged [] [] []
  | left (a : α) {l m n : List α} (h : Merged l m n) : Merged (a :: l) m (a :: n)
  | right (a : α) {l m n : List α} (h : Merged l m n) : Merged l (a :: m) (a :: n)

namespace List.Merged

variable {α β : Type} {l m n l' m' n' : List α}

theorem nil_right (l : List α) : Merged l [] l := by
  induction l with
  | nil => exact .nil
  | cons a _ ih => exact .left a ih

theorem nil_left (l : List α) : Merged [] l l := by
  induction l with
  | nil => exact .nil
  | cons a _ ih => exact .right a ih

theorem append (h : Merged l m n) (h' : Merged l' m' n') :
    Merged (l ++ l') (m ++ m') (n ++ n') := by
  induction h with
  | nil => exact h'
  | left a _ ih => exact .left a ih
  | right a _ ih => exact .right a ih

theorem flatMap {f g h : β → List α} {bs : List β} (hb : ∀ b ∈ bs, Merged (f b) (g b) (h b)) :
    Merged (bs.flatMap f) (bs.flatMap g) (bs.flatMap h) := by
  induction bs with
  | nil => exact .nil
  | cons b bs ih =>
    rw [List.forall_mem_cons] at hb
    rw [flatMap_cons, flatMap_cons, flatMap_cons]
    exact hb.1.append (ih hb.2)

theorem filterMap (f : α → Option β) (h : Merged l m n) :
    Merged (l.filterMap f) (m.filterMap f) (n.filterMap f) := by
  induction h with
  | nil => exact .nil
  | left a _ ih =>
    rw [filterMap_cons, filterMap_cons]
    split
    · exact ih
    · exact .left _ ih
  | right a _ ih =>
    rw [filterMap_cons, filterMap_cons]
    split
    · exact ih
    · exact .right _ ih

theorem map (f : α → β) (h : Merged l m n) : Merged (l.map f) (m.map f) (n.map f) := by
  simpa [filterMap_eq_map] using h.filterMap (some ∘ f)

theorem length_eq (h : Merged l m n) : n.length = l.length + m.length := by
  induction h with
  | nil => rfl
  | left a _ ih => simp only [length_cons, ih]; omega
  | right a _ ih => simp only [length_cons, ih]; omega

/-- A list is merged from itself just with the empty list. -/
theorem eq_iff (h : Merged l m n) : n = l ↔ m = [] := by
  constructor
  · intro heq
    have hlength := h.length_eq
    rw [heq] at hlength
    exact length_eq_zero_iff.1 (by omega)
  · rintro rfl
    generalize hm : ([] : List α) = m at h
    induction h with
    | nil => rfl
    | left a _ ih => rw [ih hm]
    | right a _ _ => cases hm

end List.Merged

namespace TypedSheets

open Recall

/-! ### Sequences in annotations -/

namespace TypeExpr

/-- The integer that a sequence is stored as. -/
def integer (flags : Flags) : TypeExpr := .primitive { nullable := flags.nullable } .int32

/-- An annotation with the sequences in it, at every depth, written as integers. -/
def asIntegers : TypeExpr → TypeExpr
  | array f e => if f.sequence then integer f else array f e.asIntegers
  | map f k v => if f.sequence then integer f else map f k.asIntegers v.asIntegers
  | geometry f s e => if f.sequence then integer f else geometry f s e.asIntegers
  | e => if e.sequence then integer e.flags else e

/-- The sequences in an annotation from left to right, those inside a sequence left out. -/
def sequences : TypeExpr → List TypeExpr
  | array f e => if f.sequence then [array f e] else e.sequences
  | map f k v => if f.sequence then [map f k v] else k.sequences ++ v.sequences
  | geometry f s e => if f.sequence then [geometry f s e] else e.sequences
  | e => if e.sequence then [e] else []

/-- Induction on an annotation that stops at its sequences. -/
@[elab_as_elim]
theorem sequence_induction {motive : TypeExpr → Prop}
    (sequence : ∀ e, e.sequence = true → motive e)
    (primitive : ∀ f p, ¬ f.sequence = true → motive (.primitive f p))
    (enum : ∀ f name, ¬ f.sequence = true → motive (.enum f name))
    (relation : ∀ f t, ¬ f.sequence = true → motive (.relation f t))
    (array : ∀ f e, ¬ f.sequence = true → motive e → motive (.array f e))
    (map : ∀ f k v, ¬ f.sequence = true → motive k → motive v → motive (.map f k v))
    (geometry : ∀ f s e, ¬ f.sequence = true → motive e → motive (.geometry f s e))
    (e : TypeExpr) : motive e := by
  by_cases hs : e.sequence = true
  · exact sequence e hs
  induction e with
  | primitive f p => exact primitive f p hs
  | enum f name => exact enum f name hs
  | relation f t => exact relation f t hs
  | array f e ih => exact array f e hs ((em _).elim (sequence e) ih)
  | map f k v ihk ihv =>
    exact map f k v hs ((em _).elim (sequence k) ihk) ((em _).elim (sequence v) ihv)
  | geometry f s e ih => exact geometry f s e hs ((em _).elim (sequence e) ih)

variable {e : TypeExpr}

theorem asIntegers_of_sequence (h : e.sequence = true) : e.asIntegers = integer e.flags := by
  cases e <;> exact if_pos h

/-- An annotation that is neither a sequence nor something else than a relation is a relation
without the mark of a sequence. -/
theorem ends_or_eq_relation (e : TypeExpr) :
    (e.Ends ∧ e.asIntegers.Ends) ∨ ∃ f t, ¬ f.sequence = true ∧ e = relation f t := by
  by_cases hs : e.sequence = true
  · rw [asIntegers_of_sequence hs]
    exact .inl ⟨.inl hs, .inr rfl⟩
  · cases e with
    | relation f t => exact .inr ⟨f, t, hs, rfl⟩
    | _ =>
      refine .inl ⟨.inr rfl, .inr ?_⟩
      unfold asIntegers
      split <;> rfl

theorem sequences_of_sequence (h : e.sequence = true) : e.sequences = [e] := by
  cases e <;> exact if_pos h

theorem isWellFormed_asIntegers (h : e.isWellFormed = true) : e.asIntegers.isWellFormed = true := by
  induction e with
  | primitive f p =>
    unfold asIntegers
    split <;> rfl
  | enum f name | relation f t =>
    unfold asIntegers
    split
    · rfl
    · exact h
  | array f e ih | geometry f s e ih =>
    unfold asIntegers
    split
    · rfl
    · exact ih h
  | map f k v ihk ihv =>
    unfold asIntegers
    split
    · rfl
    · rw [isWellFormed, Bool.and_eq_true] at h ⊢
      exact ⟨ihk h.1, ihv h.2⟩

/-- The relations in an annotation are those beside the sequences and those under them. -/
theorem merged_relations (e : TypeExpr) :
    List.Merged e.asIntegers.relations (e.sequences.flatMap relations) e.relations := by
  induction e using sequence_induction with
  | sequence e hs =>
    rw [asIntegers_of_sequence hs, sequences_of_sequence hs, List.flatMap_singleton]
    exact .nil_left _
  | primitive f p hs | enum f name hs | relation f t hs =>
    simp only [asIntegers, sequences, sequence, flags, hs, Bool.false_eq_true, if_false]
    exact .nil_right _
  | array f e hs ih | geometry f s e hs ih =>
    rw [asIntegers, sequences, if_neg hs, if_neg hs]
    exact ih
  | map f k v hs ihk ihv =>
    rw [asIntegers, sequences, if_neg hs, if_neg hs, List.flatMap_append]
    exact ihk.append ihv

end TypeExpr

/-! ### Values at sequences -/

namespace Value

/-- The values of a pair of a kind. -/
def pair? : Geometry → Value → Option (Value × Value)
  | .point, point a b => some (a, b)
  | .size, size a b => some (a, b)
  | .range, range a b => some (a, b)
  | _, _ => none

/-- What a value holds at the sequences of its type and below them, each with its type. -/
def atSequences (ps : Prototypes) : TypeExpr → Value → List (TypeExpr × Value)
  | .array f e, v =>
    if f.sequence then v.positions ps (.array f e)
    else match v with
      | array items => items.flatMap (atSequences ps e)
      | _ => []
  | .map f k w, v =>
    if f.sequence then v.positions ps (.map f k w)
    else match v with
      | map entries => entries.flatMap fun x => atSequences ps k x.1 ++ atSequences ps w x.2
      | _ => []
  | .geometry f s e, v =>
    if f.sequence then v.positions ps (.geometry f s e)
    else match v.pair? s with
      | some (a, b) => atSequences ps e a ++ atSequences ps e b
      | none => []
  | e, v => if e.sequence then v.positions ps e else []

variable {ps : Prototypes} {e : TypeExpr} {v : Value}

theorem atSequences_of_sequence (h : e.sequence = true) :
    v.atSequences ps e = v.positions ps e := by
  cases e <;> exact if_pos h

section Plain

variable {f : Flags} (hs : ¬ f.sequence = true)

include hs

theorem atSequences_array (v : Value) : v.atSequences ps (.array f e) =
    match v with
    | array items => items.flatMap (atSequences ps e)
    | _ => [] := by
  cases v <;> exact if_neg hs

theorem atSequences_map (k w : TypeExpr) (v : Value) : v.atSequences ps (.map f k w) =
    match v with
    | map entries => entries.flatMap fun x => atSequences ps k x.1 ++ atSequences ps w x.2
    | _ => [] := by
  cases v <;> exact if_neg hs

theorem atSequences_geometry (shape : Geometry) (v : Value) :
    v.atSequences ps (.geometry f shape e) =
      match v.pair? shape with
      | some (a, b) => atSequences ps e a ++ atSequences ps e b
      | none => [] :=
  if_neg hs

end Plain

theorem itemPositions_eq (items : List Value) :
    itemPositions ps e items = items.flatMap (positions ps e) := by
  induction items with
  | nil => rfl
  | cons v vs ih => rw [itemPositions, ih, List.flatMap_cons]

theorem entryPositions_eq (k w : TypeExpr) (entries : List (Value × Value)) :
    entryPositions ps k w entries =
      entries.flatMap fun x => positions ps k x.1 ++ positions ps w x.2 := by
  induction entries with
  | nil => rfl
  | cons x xs ih => rw [entryPositions, ih, List.flatMap_cons]

theorem positions_array (f : Flags) (e : TypeExpr) (v : Value) :
    v.positions ps (.array f e) = (.array f e, v) ::
      match v with
      | array items => items.flatMap (positions ps e)
      | _ => [] := by
  cases v <;> simp [positions, itemPositions_eq]

theorem positions_map (f : Flags) (k w : TypeExpr) (v : Value) :
    v.positions ps (.map f k w) = (.map f k w, v) ::
      match v with
      | map entries => entries.flatMap fun x => positions ps k x.1 ++ positions ps w x.2
      | _ => [] := by
  cases v <;> simp [positions, entryPositions_eq]

theorem positions_geometry (f : Flags) (s : Geometry) (e : TypeExpr) (v : Value) :
    v.positions ps (.geometry f s e) = (.geometry f s e, v) ::
      match v.pair? s with
      | some (a, b) => positions ps e a ++ positions ps e b
      | none => [] := by
  cases s <;> cases v <;> simp [positions, pair?]

/-- Below an integer there is nothing. -/
theorem positions_integer (f : Flags) (v : Value) :
    v.positions ps (.integer f) = [(.integer f, v)] := by
  cases v <;> simp [positions, TypeExpr.integer]

end Value

namespace Session

variable (s : Session)

/-- What is no relation is not looked up. -/
theorem relationText?_of_none {e : TypeExpr} (h : e.relation? = none) (v : Value) :
    s.relationText? (e, v) = none := by
  unfold relationText?
  rw [h]
  split <;> rfl

/-- The values that are looked up are those beside the sequences and those at them. -/
theorem merged_positions (e : TypeExpr) (v : Value) :
    List.Merged ((v.positions s.defs.prototypes e.asIntegers).filterMap s.relationText?)
      ((v.atSequences s.defs.prototypes e).filterMap s.relationText?)
      ((v.positions s.defs.prototypes e).filterMap s.relationText?) := by
  have hplain {l m n : List (TypeExpr × Value)} {e e' : TypeExpr} {v : Value}
      (h : List.Merged (l.filterMap s.relationText?) (m.filterMap s.relationText?)
        (n.filterMap s.relationText?)) (he : e.relation? = none) (he' : e'.relation? = none) :
      List.Merged (((e, v) :: l).filterMap s.relationText?) (m.filterMap s.relationText?)
        (((e', v) :: n).filterMap s.relationText?) := by
    rwa [List.filterMap_cons_none (s.relationText?_of_none he v),
      List.filterMap_cons_none (s.relationText?_of_none he' v)]
  induction e using TypeExpr.sequence_induction generalizing v with
  | sequence e hs =>
    rw [TypeExpr.asIntegers_of_sequence hs, Value.atSequences_of_sequence hs,
      Value.positions_integer, List.filterMap_cons_none (s.relationText?_of_none rfl v)]
    exact .nil_left _
  | primitive f p hs | enum f name hs | relation f t hs =>
    simp only [TypeExpr.asIntegers, Value.atSequences, TypeExpr.sequence, TypeExpr.flags, hs,
      Bool.false_eq_true, if_false]
    exact .nil_right _
  | array f e hs ih =>
    rw [TypeExpr.asIntegers, if_neg hs, Value.atSequences_array hs, Value.positions_array,
      Value.positions_array]
    refine hplain ?_ rfl rfl
    cases v with
    | array items =>
      dsimp only
      rw [List.filterMap_flatMap, List.filterMap_flatMap, List.filterMap_flatMap]
      exact .flatMap fun v _ => ih v
    | _ => exact .nil
  | map f k w hs ihk ihw =>
    rw [TypeExpr.asIntegers, if_neg hs, Value.atSequences_map hs, Value.positions_map,
      Value.positions_map]
    refine hplain ?_ rfl rfl
    cases v with
    | map entries =>
      dsimp only
      rw [List.filterMap_flatMap, List.filterMap_flatMap, List.filterMap_flatMap]
      refine .flatMap fun x _ => ?_
      rw [List.filterMap_append, List.filterMap_append, List.filterMap_append]
      exact (ihk x.1).append (ihw x.2)
    | _ => exact .nil
  | geometry f shape e hs ih =>
    rw [TypeExpr.asIntegers, if_neg hs, Value.atSequences_geometry hs, Value.positions_geometry,
      Value.positions_geometry]
    refine hplain ?_ rfl rfl
    cases v.pair? shape with
    | some x =>
      dsimp only
      rw [List.filterMap_append, List.filterMap_append, List.filterMap_append]
      exact (ih x.1).append (ih x.2)
    | none => exact .nil

end Session

/-! ### Values of annotations -/

namespace Definitions

variable {d : Definitions} {type type' : String} {e : TypeExpr} {v : Value}

/-- Annotations that are stored as one type have the same values. -/
theorem Inhabits.of_storedAs {expr : TypeExpr} (h : d.StoredAs type expr)
    (h' : d.StoredAs type' expr) (hv : d.Inhabits type v) : d.Inhabits type' v := by
  have hs {expr' : TypeExpr} (h₀ : d.StoredAs type expr') : d.StoredAs type' expr' := by
    rwa [h₀.unique h]
  cases hv with
  | null h hn => exact .null (hs h) hn
  | bool h b => exact .bool (hs h) b
  | integer h hp hv => exact .integer (hs h) hp hv
  | double h hx => exact .double (hs h) hx
  | float h hx hfits => exact .float (hs h) hx hfits
  | string h s => exact .string (hs h) s
  | dateTime h t => exact .dateTime (hs h) t
  | timeSpan h span => exact .timeSpan (hs h) span
  | dateRange h start finish => exact .dateRange (hs h) start finish
  | array h hi => exact .array (hs h) hi
  | map h hk hv => exact .map (hs h) hk hv
  | point h hx hy => exact .point (hs h) hx hy
  | size h hw hh => exact .size (hs h) hw hh
  | range h hmin hmax => exact .range (hs h) hmin hmax
  | symbol h ht hm => exact .symbol (hs h) ht hm
  | number h ht n => exact .number (hs h) ht n
  | call h hp hl ha => exact .call (hs h) hp hl ha

/-- The values of an array. -/
theorem inhabits_array_iff {f : Flags} (h : d.StoredAs type (.array f e)) :
    d.Inhabits type v ↔ ∃ items, v = .array items ∧ ∀ w ∈ items, d.Inhabits e.text w := by
  constructor
  · intro hv
    cases hv with
    | array h' hi =>
      cases h.unique h'
      exact ⟨_, rfl, hi⟩
    | null h' hn =>
      cases h.unique h'
      cases hn
    | integer h' => cases h.unique h'
    | _ => rename_i h'; cases h.unique h'
  · rintro ⟨items, rfl, hi⟩
    exact .array h hi

/-- The values of a map. -/
theorem inhabits_map_iff {f : Flags} {k w : TypeExpr} (h : d.StoredAs type (.map f k w)) :
    d.Inhabits type v ↔ ∃ entries, v = .map entries ∧
      ∀ x ∈ entries, d.Inhabits k.text x.1 ∧ d.Inhabits w.text x.2 := by
  constructor
  · intro hv
    cases hv with
    | map h' hk hv =>
      cases h.unique h'
      exact ⟨_, rfl, fun x hx => ⟨hk x hx, hv x hx⟩⟩
    | null h' hn =>
      cases h.unique h'
      cases hn
    | integer h' => cases h.unique h'
    | _ => rename_i h'; cases h.unique h'
  · rintro ⟨entries, rfl, hx⟩
    exact .map h (fun x hmem => (hx x hmem).1) fun x hmem => (hx x hmem).2

/-- The values of a pair. -/
theorem inhabits_geometry_iff {f : Flags} {shape : Geometry}
    (h : d.StoredAs type (.geometry f shape e)) :
    d.Inhabits type v ↔ (v = .null ∧ f.nullable = true) ∨
      ∃ a b, v.pair? shape = some (a, b) ∧ d.Inhabits e.text a ∧ d.Inhabits e.text b := by
  constructor
  · intro hv
    cases hv with
    | null h' hn =>
      cases h.unique h'
      exact .inl ⟨rfl, hn⟩
    | point h' ha hb | size h' ha hb | range h' ha hb =>
      cases h.unique h'
      exact .inr ⟨_, _, rfl, ha, hb⟩
    | integer h' => cases h.unique h'
    | _ => rename_i h'; cases h.unique h'
  · rintro (⟨rfl, hn⟩ | ⟨a, b, hpair, ha, hb⟩)
    · exact .null h hn
    · have hv : v = pairValue shape a b := by
        cases shape <;> cases v <;> cases hpair <;> rfl
      rw [hv]
      exact .pair h ha hb

/-- The values of an annotation are those of the annotation with its sequences written as
integers. -/
theorem inhabits_asIntegers_iff (he : e.isWellFormed = true) (v : Value) :
    d.Inhabits e.text v ↔ d.Inhabits e.asIntegers.text v := by
  induction e using TypeExpr.sequence_induction generalizing v with
  | sequence e hs =>
    have h := d.storedAs_of_ends he (.inl hs)
    have h' := d.storedAs_of_ends (e := .integer e.flags) rfl (.inr rfl)
    rw [TypeExpr.stored, if_pos hs] at h
    rw [TypeExpr.asIntegers_of_sequence hs]
    exact ⟨.of_storedAs h h', .of_storedAs h' h⟩
  | primitive f p hs | enum f name hs | relation f t hs =>
    simp only [TypeExpr.asIntegers, TypeExpr.sequence, TypeExpr.flags, hs, Bool.false_eq_true,
      if_false]
  | array f e hs ih =>
    rw [TypeExpr.asIntegers, if_neg hs, inhabits_array_iff (d.storedAs_plain he rfl hs),
      inhabits_array_iff (d.storedAs_plain (e := .array f e.asIntegers)
        (TypeExpr.isWellFormed_asIntegers he) rfl hs)]
    simp only [ih he]
  | map f k w hs ihk ihw =>
    obtain ⟨hk, hw⟩ := Bool.and_eq_true_iff.1 he
    have hwell : (TypeExpr.map f k.asIntegers w.asIntegers).isWellFormed = true :=
      Bool.and_eq_true_iff.2
        ⟨TypeExpr.isWellFormed_asIntegers hk, TypeExpr.isWellFormed_asIntegers hw⟩
    rw [TypeExpr.asIntegers, if_neg hs, inhabits_map_iff (d.storedAs_plain he rfl hs),
      inhabits_map_iff (d.storedAs_plain hwell rfl hs)]
    simp only [ihk hk, ihw hw]
  | geometry f shape e hs ih =>
    rw [TypeExpr.asIntegers, if_neg hs, inhabits_geometry_iff (d.storedAs_plain he rfl hs),
      inhabits_geometry_iff (d.storedAs_plain (e := .geometry f shape e.asIntegers)
        (TypeExpr.isWellFormed_asIntegers he) rfl hs)]
    simp only [ih he, TypeExpr.nullable, TypeExpr.flags]

/-- What a value of an annotation holds at a sequence is the value of the sequence alone. -/
theorem Inhabits.mem_sequences (he : e.isWellFormed = true) (hv : d.Inhabits e.text v)
    {ps : Prototypes} {p : TypeExpr × Value} (hp : p ∈ v.atSequences ps e) : p.1 ∈ e.sequences := by
  induction e using TypeExpr.sequence_induction generalizing v with
  | sequence e hs =>
    rw [Value.atSequences_of_sequence hs] at hp
    have halone : v.positions ps e = [(e, v)] := by
      rcases hv.of_sequence (TypeExpr.parse_text he) hs with ⟨n, rfl, -⟩ | ⟨rfl, -⟩
      · simp [Value.positions]
      · simp [Value.positions]
    rw [halone, List.mem_singleton] at hp
    rw [TypeExpr.sequences_of_sequence hs, hp]
    exact List.mem_singleton_self e
  | primitive f q hs | enum f name hs | relation f t hs =>
    simp only [Value.atSequences, TypeExpr.sequence, TypeExpr.flags, hs, Bool.false_eq_true,
      if_false] at hp
    cases hp
  | array f e hs ih =>
    rw [Value.atSequences_array hs] at hp
    obtain ⟨items, rfl, hi⟩ := (inhabits_array_iff (d.storedAs_plain he rfl hs)).1 hv
    obtain ⟨w, hw, hp⟩ := List.mem_flatMap.1 hp
    rw [TypeExpr.sequences, if_neg hs]
    exact ih he (hi w hw) hp
  | map f k w hs ihk ihw =>
    obtain ⟨hk, hw⟩ := Bool.and_eq_true_iff.1 he
    rw [Value.atSequences_map hs] at hp
    obtain ⟨entries, rfl, hx⟩ := (inhabits_map_iff (d.storedAs_plain he rfl hs)).1 hv
    obtain ⟨x, hmem, hp⟩ := List.mem_flatMap.1 hp
    rw [TypeExpr.sequences, if_neg hs, List.mem_append]
    exact (List.mem_append.1 hp).imp (ihk hk (hx x hmem).1) (ihw hw (hx x hmem).2)
  | geometry f shape e hs ih =>
    rw [Value.atSequences_geometry hs] at hp
    rw [TypeExpr.sequences, if_neg hs]
    rcases (inhabits_geometry_iff (d.storedAs_plain he rfl hs)).1 hv with
      ⟨rfl, -⟩ | ⟨a, b, hpair, ha, hb⟩
    · have hnone : Value.null.pair? shape = none := by cases shape <;> rfl
      rw [hnone] at hp
      cases hp
    · rw [hpair] at hp
      exact (List.mem_append.1 hp).elim (ih he ha) (ih he hb)

end Definitions

/-! ### The checks of relations -/

/-- The root type of a relation is told from the relation alone, however it is written. -/
theorem Schemas.rootFrom_congr_of_relation {ss : Schemas} {visited : List (String × String)}
    {type type' : String} {e : TypeExpr} {t : Target} (h : TypeExpr.parse type = .ok e)
    (h' : TypeExpr.parse type' = .ok e) (ht : e.relation? = some t) :
    ss.rootFrom visited type = ss.rootFrom visited type' := by
  rw [rootFrom, rootFrom, h, h']
  simp only [ht]

theorem Session.fresh_rootType (s : Session) (type : String) :
    (s.schemas.rootType type).run.fresh = (s.schemas.rootFrom [] type).mapError .failure :=
  Definitions.fresh_rootType type

namespace Check

variable {s : Session} {m : Memory} {type : String} {e : TypeExpr}

/-- The faults of relations are those of the relations beside the sequences and of those under
them. -/
theorem merged_targetFaults (ss : Schemas) (e : TypeExpr) :
    List.Merged (targetFaults ss e.asIntegers) (e.sequences.flatMap (targetFaults ss))
      (targetFaults ss e) := by
  have hunder : e.sequences.flatMap (targetFaults ss) =
      Attempt.failures ((e.sequences.flatMap TypeExpr.relations).map ss.checkTarget) := by
    unfold targetFaults Attempt.failures
    rw [List.map_flatMap, List.filterMap_flatMap]
  rw [hunder]
  exact (e.merged_relations.map ss.checkTarget).filterMap _

/-- The relations of an annotation have no faults just if they pass their checks. -/
theorem targetFaults_eq_nil_iff {ss : Schemas} :
    targetFaults ss e = [] ↔ ∀ t ∈ e.relations, ss.checkTarget t = .ok () := by
  refine ⟨checkTarget_of_targetFaults, fun h => List.filterMap_eq_nil_iff.2 fun r hr => ?_⟩
  obtain ⟨t, ht, rfl⟩ := List.mem_map.1 hr
  rw [h t ht]

/-- The complaints about an annotation that is a sequence, or no relation, are the faults of the
relations in it. -/
theorem fresh_typeFaults_of_ends (hparse : TypeExpr.parse type = .ok e) (hends : e.Ends) :
    (typeFaults s type).run.fresh = .ok (targetFaults s.schemas e) := by
  have hroot : ∃ root, s.schemas.rootFrom [] type = .ok root := by
    rw [Schemas.rootFrom, hparse]
    cases hs : e.sequence with
    | true =>
      simp only [hs, if_true]
      exact ⟨_, rfl⟩
    | false =>
      have hr : e.relation? = none := hends.resolve_left (by simp [hs])
      simp only [hs, hr, Bool.false_eq_true, if_false]
      exact ⟨_, rfl⟩
  obtain ⟨root, hroot⟩ := hroot
  unfold typeFaults
  rw [hparse]
  dsimp only
  split
  · rfl
  · rename_i hnone
    simp only [Bool.or_eq_true, not_or, Bool.not_eq_true', Bool.not_eq_false,
      List.isEmpty_iff] at hnone
    rw [fresh_bind_run, Session.fresh_result, s.fresh_rootType, hroot, hnone.1]
    rfl

/-- The complaints about an annotation are those about the annotation with its sequences written as
integers just if the relations under the sequences pass their checks. -/
theorem fresh_typeFaults_asIntegers_iff (hparse : TypeExpr.parse type = .ok e) :
    (typeFaults s type).run.fresh = (typeFaults s e.asIntegers.text).run.fresh ↔
      ∀ q ∈ e.sequences, ∀ t ∈ q.relations, s.schemas.checkTarget t = .ok () := by
  have hwell := TypeExpr.isWellFormed_asIntegers (TypeExpr.isWellFormed_of_parse hparse)
  have hparse' : TypeExpr.parse e.asIntegers.text = .ok e.asIntegers := TypeExpr.parse_text hwell
  rcases e.ends_or_eq_relation with ⟨hends, hends'⟩ | ⟨f, t, hs, rfl⟩
  · rw [fresh_typeFaults_of_ends hparse hends, fresh_typeFaults_of_ends hparse' hends',
      Except.ok.injEq, (merged_targetFaults s.schemas e).eq_iff, List.flatMap_eq_nil_iff]
    simp only [targetFaults_eq_nil_iff]
  · have hself : (TypeExpr.relation f t).asIntegers = .relation f t := if_neg hs
    have hnone : (TypeExpr.relation f t).sequences = [] := if_neg hs
    rw [hself] at hparse'
    rw [hself, hnone]
    refine ⟨fun _ q hq => absurd hq List.not_mem_nil, fun _ => ?_⟩
    unfold typeFaults
    rw [hparse, hparse']
    dsimp only
    split
    · rfl
    · rw [fresh_bind_run, fresh_bind_run, Session.fresh_result, Session.fresh_result,
        s.fresh_rootType, s.fresh_rootType,
        Schemas.rootFrom_congr_of_relation hparse hparse' rfl]

/-- What the check of an annotation comes to needs no memory. -/
theorem plain_typeFaults (s : Session) (type : String) : Plain s.exact (typeFaults s type).run :=
  (passedOn_asks.typeFaults type).plain fun r _ => s.plain_respond r

end Check

namespace Session

variable {s : Session} {m : Memory} {type : String} {e : TypeExpr}

/-- The values that are looked up in an annotated value are those that are looked up if its
sequences are written as integers, and those at the sequences. -/
theorem usesIn_asIntegers_iff (location : Location) (subject : String × String) (v : Value) :
    s.usesIn location subject e v = s.usesIn location subject e.asIntegers v ↔
      ∀ p ∈ v.atSequences s.defs.prototypes e, s.relationText? p = none := by
  rw [← List.filterMap_eq_nil_iff]
  have h := (s.merged_positions e v).map fun u : String × String × String =>
    ({ table := u.1, column := u.2.1, value := u.2.2, location, subject } : RelationUse)
  refine h.eq_iff.trans ?_
  rw [List.map_eq_nil_iff]

/-- **Sequences and the checks of relations.** The values of an annotation are those of the
annotation with its sequences, at every depth, written as integers. The checks do not always take
them so. Whatever is remembered, the complaints about the annotation are the same just if the
relations under the sequences lead to columns; and the same values are looked up in a value just if
none stands at a relation under a sequence. Without relations under sequences both are the same. -/
theorem marked_as_integers_iff (hm : m.Meets s.exact) (hparse : TypeExpr.parse type = .ok e) :
    (∀ v, s.defs.Inhabits e.text v ↔ s.defs.Inhabits e.asIntegers.text v) ∧
    (((Check.typeFaults s type).run.run m).1 =
        ((Check.typeFaults s e.asIntegers.text).run.run m).1 ↔
      ∀ q ∈ e.sequences, ∀ t ∈ q.relations, s.schemas.checkTarget t = .ok ()) ∧
    (∀ location subject v,
      s.usesIn location subject e v = s.usesIn location subject e.asIntegers v ↔
        ∀ p ∈ v.atSequences s.defs.prototypes e, s.relationText? p = none) ∧
    ((∀ q ∈ e.sequences, q.relations = []) → ∀ v, s.defs.Inhabits e.text v →
      ∀ location subject,
        s.usesIn location subject e v = s.usesIn location subject e.asIntegers v) := by
  have he := TypeExpr.isWellFormed_of_parse hparse
  refine ⟨Definitions.inhabits_asIntegers_iff he, ?_, fun location subject v =>
    usesIn_asIntegers_iff location subject v, fun hnone v hv location subject => ?_⟩
  · rw [((Check.plain_typeFaults s type).run hm).1,
      ((Check.plain_typeFaults s e.asIntegers.text).run hm).1]
    exact Check.fresh_typeFaults_asIntegers_iff hparse
  · refine (usesIn_asIntegers_iff location subject v).2 fun p hp => ?_
    have hrelations := hnone p.1 (hv.mem_sequences he hp)
    refine s.relationText?_of_none (Option.eq_none_iff_forall_ne_some.2 fun t ht => ?_) p.2
    cases hp1 : p.1 with
    | relation f t' =>
      rw [hp1] at hrelations
      cases hrelations
    | _ =>
      rw [hp1] at ht
      cases ht

/-- A session with a table of items. -/
def items : Session where
  defs := { schemas := .ofList [("Item", Schemas.tableOf "Item" [Schemas.nodeId])] }

/-- Orders of items are annotated without complaints, and looked up among the items. -/
theorem items_marked :
    let e := TypeExpr.array {} (.relation { sequence := true } ⟨"Item", none⟩)
    ((Check.typeFaults items e.text).run.run {}).1 =
        ((Check.typeFaults items e.asIntegers.text).run.run {}).1 ∧
      ∀ location subject, items.usesIn location subject e (.array [.int 7]) ≠
        items.usesIn location subject e.asIntegers (.array [.int 7]) := by
  intro e
  have hparse : TypeExpr.parse e.text = .ok e := TypeExpr.parse_text (by decide)
  have hempty : ({} : Memory).Meets items.exact := Memory.meets_empty _
  obtain ⟨-, hfaults, huses, -⟩ := marked_as_integers_iff hempty hparse
  have hsequences : e.sequences = [.relation { sequence := true } ⟨"Item", none⟩] := rfl
  refine ⟨hfaults.2 fun q hq t ht => ?_, fun location subject heq => ?_⟩
  · rw [hsequences, List.mem_singleton] at hq
    subst hq
    rw [List.mem_singleton.1 ht]
    decide +kernel
  · have hnone := (huses location subject _).1 heq
      (.relation { sequence := true } ⟨"Item", none⟩, .int 7) (List.mem_singleton.2 rfl)
    exact absurd (congrArg Option.isSome hnone) (by decide +kernel)

end Session

namespace Workbook

/-- Items, and drops with the order of an item among them. -/
def drops : Workbook where
  sheets := [
    { location := ⟨"drop.xlsx", "Item", none⟩, table := "Item", based := none, group := none,
      columns := [⟨"Id", "*int", .common, false, .ofList [(1, .text "1")]⟩] },
    { location := ⟨"drop.xlsx", "Drop", none⟩, table := "Drop", based := none, group := none,
      columns := [⟨"Order", "~$Item", .common, false, .ofList [(1, .text "7")]⟩] }]

/-- **An order is stored as an integer and looked up among the items**, where it is missed. -/
theorem drops_missed : ∃ s, drops.Prepares {} 1 s ∧ s.schemas.rootFrom [] "~$Item" = .ok "int" ∧
    ((Check.relationValues.report s drops).run {}).1 = .ok [Check.missingValue
      ⟨"Item", "Id", "7", ⟨"drop.xlsx", "Drop", some 1⟩, ("Drop", "Order")⟩] := by
  obtain ⟨s, hs, hp⟩ := drops.exists_prepares {} (p := fun s =>
    decide (s.schemas.rootFrom [] "~$Item" = .ok "int") &&
      decide ((Check.relationValues.report s drops).runOn [] = .ok [Check.missingValue
        ⟨"Item", "Id", "7", ⟨"drop.xlsx", "Drop", some 1⟩, ("Drop", "Order")⟩]))
    (by decide +kernel) 1
  rw [Bool.and_eq_true, decide_eq_true_eq, decide_eq_true_eq] at hp
  refine ⟨s, hs, hp.1, ?_⟩
  rw [fst_run_empty]
  exact hp.2

end Workbook

end TypedSheets
