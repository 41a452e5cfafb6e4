import TypedSheets.Proofs.Casting.Members

/-!
# Members in two spellings

A cell can hold a member by its name, and by its number as well. The values are different, and so
are their texts. When some members are written by their numbers, texts of a column that were equal
stay equal, and those that were different stay different, as long as these members were written by
their names everywhere and are now written by their numbers everywhere.

## Main definitions

* `EnumTables.Numbers` — members of an enum with different numbers.
* `Value.Respelled`, `RespelledText` — a member by its name, and then by its number.
* `SpelledApart` — the two spellings do not meet, neither before nor afterwards.

## Main results

* `Definitions.Respells.text_ne` — the two spellings of a member are never one text.
* `TextPair.eq_iff` — where spellings do not meet, equal texts stay equal and others different.
-/

namespace TypedSheets

open Recall

/-! ### Numbered members -/

/-- Members of an enum with their numbers, which are different and not negative. -/
structure EnumTables.Numbers (ts : EnumTables) (name : String) (members : List (String × Int64)) :
    Prop where
  /-- The numbers. -/
  value : ∀ p ∈ members, (ts.memberValue name p.1).run.fresh = .ok p.2
  /-- No number is negative. -/
  nonneg : ∀ p ∈ members, 0 ≤ p.2.toInt
  /-- Different members have different numbers. -/
  distinct : ∀ p ∈ members, ∀ q ∈ members, p.2 = q.2 → p.1 = q.1

instance (ts : EnumTables) (name : String) (members : List (String × Int64)) :
    Decidable (ts.Numbers name members) :=
  decidable_of_iff ((∀ p ∈ members, (ts.memberValue name p.1).run.fresh = .ok p.2) ∧
    (∀ p ∈ members, 0 ≤ p.2.toInt) ∧ ∀ p ∈ members, ∀ q ∈ members, p.2 = q.2 → p.1 = q.1)
    ⟨fun h => ⟨h.1, h.2.1, h.2.2⟩, fun h => ⟨h.value, h.nonneg, h.distinct⟩⟩

/-- The number of a member as it is written. -/
def numberText (p : String × Int64) : String :=
  Text.intText p.2.toInt

theorem isDigit_of_mem_numberText {p : String × Int64} (h : 0 ≤ p.2.toInt) {c : Char}
    (hc : c ∈ (numberText p).toList) : c.isDigit = true := by
  obtain ⟨k, hk⟩ := Int.eq_ofNat_of_zero_le h
  rw [numberText, hk] at hc
  refine Text.isDigit_of_mem_decimal (n := k) ?_
  rwa [← String.toList_ofList (l := Text.decimal k)]

namespace EnumTables.Numbers

variable {ts : EnumTables} {name : String} {members : List (String × Int64)}

theorem contains (h : ts.Numbers name members) {p : String × Int64} (hp : p ∈ members) :
    Keyed.contains ts name = true := by
  have hvalue := h.value p hp
  rw [memberValue, memberValueFrom, fresh_remember] at hvalue
  split at hvalue
  · cases hvalue
  · rename_i table htable
    rw [Keyed.contains, htable]
    rfl

/-- Members are the same just if their numbers are written alike. -/
theorem eq_iff (h : ts.Numbers name members) {p q : String × Int64} (hp : p ∈ members)
    (hq : q ∈ members) : p.1 = q.1 ↔ numberText p = numberText q := by
  constructor
  · intro heq
    have hvalue := h.value p hp
    rw [heq, h.value q hq] at hvalue
    rw [numberText, numberText, Except.ok.inj hvalue]
  · intro heq
    exact h.distinct p hp q hq (Int64.toInt_inj.1 (Text.intText_injective heq))

end EnumTables.Numbers

/-! ### Two spellings -/

/-- A cell is left as it is, or holds a member that the other cell has by its number. -/
def Definitions.Respells (d : Definitions) (name : String) (members : List (String × Int64))
    (type : String) (cell cell' : Cell) : Prop :=
  cell' = cell ∨ d.enumRoot? type = some name ∧
    ∃ p ∈ members, d.member? type cell = some p.1 ∧ cell' = .text (numberText p)

instance (d : Definitions) (name : String) (members : List (String × Int64)) (type : String)
    (cell cell' : Cell) : Decidable (d.Respells name members type cell cell') :=
  inferInstanceAs (Decidable (_ ∨ _ ∧ ∃ p ∈ members, _ ∧ _))

/-- A value is left as it is, or is a member by its name and then by its number. -/
def Value.Respelled (members : List (String × Int64)) (v v' : Value) : Prop :=
  v' = v ∨ ∃ p ∈ members, v = .enum (.symbol p.1) ∧ v' = .enum (.integer p.2)

/-- A text is left as it is, or is the name of a member and then its number. -/
def RespelledText (members : List (String × Int64)) (a a' : String) : Prop :=
  a' = a ∨ ∃ p ∈ members, a = p.1 ∧ a' = numberText p

namespace Value.Respelled

variable {members : List (String × Int64)} {v v' : Value}

theorem text (h : v.Respelled members v') : RespelledText members v.text v'.text := by
  rcases h with rfl | ⟨p, hp, rfl, rfl⟩
  · exact .inl rfl
  · exact .inr ⟨p, hp, rfl, rfl⟩

theorem isNull_eq (h : v.Respelled members v') : v'.isNull = v.isNull := by
  rcases h with rfl | ⟨p, -, rfl, rfl⟩ <;> rfl

end Value.Respelled

namespace Definitions.Respells

variable {d : Definitions} {name type : String} {members : List (String × Int64)}
  {cell cell' : Cell} {v v' : Value}

/-- A cell in two spellings is cast to a value in two spellings. -/
theorem exists_cast (hm : d.enums.Numbers name members)
    (h : d.Respells name members type cell cell') (hv : (d.cast type cell).run.fresh = .ok v) :
    ∃ v', (d.cast type cell').run.fresh = .ok v' ∧ v.Respelled members v' := by
  rcases h with rfl | ⟨hroot, p, hp, hmember, rfl⟩
  · exact ⟨v, hv, .inl rfl⟩
  · rw [member?_eq_some_iff, hv] at hmember
    exact ⟨.enum (.integer p.2), cast_number hroot (hm.contains hp) (hm.nonneg p hp),
      .inr ⟨p, hp, Except.ok.inj hmember, rfl⟩⟩

/-- **The two spellings of a member are never one text**: a cell that is written in another way is
cast to a value with another text. -/
theorem text_ne (hm : d.enums.Numbers name members) (h : d.Respells name members type cell cell')
    (hne : cell' ≠ cell) (hconst : cell.constRef? = none)
    (hv : (d.cast type cell).run.fresh = .ok v) (hv' : (d.cast type cell').run.fresh = .ok v') :
    v.text ≠ v'.text := by
  obtain ⟨hroot, p, hp, hmember, rfl⟩ := h.resolve_left hne
  have hnumber : (d.cast type (.text (numberText p))).run.fresh = .ok (.enum (.integer p.2)) :=
    cast_number hroot (hm.contains hp) (hm.nonneg p hp)
  rw [member?_eq_some_iff, hv] at hmember
  rw [hnumber] at hv'
  cases hmember
  cases hv'
  obtain ⟨f, hstored⟩ := enumRoot?_eq_some_iff.1 hroot
  cases castUnder_of_cast hstored rfl hconst hv with
  | symbol hsymbol => exact hsymbol.ne_intText p.2

end Definitions.Respells

/-! ### Texts that are compared with each other -/

/-- Before, no member is spelled by its number, and afterwards none by its name. -/
def SpelledApart (members : List (String × Int64)) (before after : List String) : Prop :=
  ∀ p ∈ members, numberText p ∉ before ∧ p.1 ∉ after

instance (members : List (String × Int64)) (before after : List String) :
    Decidable (SpelledApart members before after) :=
  inferInstanceAs (Decidable (∀ p ∈ members, _ ∧ _))

/-- A text in two spellings, among those that it is compared with. -/
structure TextPair (members : List (String × Int64)) (before after : List String) (a a' : String) :
    Prop where
  /-- The text. -/
  respelled : RespelledText members a a'
  /-- Where it stands before. -/
  mem : a ∈ before
  /-- Where it stands afterwards. -/
  mem' : a' ∈ after

namespace TextPair

variable {ts : EnumTables} {name : String} {members : List (String × Int64)}
  {before after : List String} {a a' b b' : String}

/-- **Where spellings do not meet, equal texts stay equal and different texts different.** -/
theorem eq_iff (hm : ts.Numbers name members) (hapart : SpelledApart members before after)
    (ha : TextPair members before after a a') (hb : TextPair members before after b b') :
    a = b ↔ a' = b' := by
  rcases ha.respelled with rfl | ⟨p, hp, rfl, rfl⟩ <;>
    rcases hb.respelled with rfl | ⟨q, hq, rfl, rfl⟩
  · exact Iff.rfl
  -- A text that is left as it is can be neither the name nor the number of a member.
  · exact iff_of_false (fun heq => (hapart q hq).2 (heq ▸ ha.mem'))
      fun heq => (hapart q hq).1 (heq ▸ ha.mem)
  · exact iff_of_false (fun heq => (hapart p hp).2 (heq ▸ hb.mem'))
      fun heq => (hapart p hp).1 (heq ▸ hb.mem)
  · exact hm.eq_iff hp hq

/-- A character other than a digit that no text has before, none has afterwards. -/
theorem not_mem_toList (hm : ts.Numbers name members) {c : Char} (hc : c.isDigit = false)
    (hplain : ∀ a ∈ before, c ∉ a.toList) (ha : TextPair members before after a a') :
    c ∉ a.toList ∧ c ∉ a'.toList := by
  refine ⟨hplain a ha.mem, ?_⟩
  rcases ha.respelled with rfl | ⟨p, hp, rfl, rfl⟩
  · exact hplain _ ha.mem
  · intro hmem
    rw [isDigit_of_mem_numberText (hm.nonneg p hp) hmem] at hc
    cases hc

end TextPair

end TypedSheets
