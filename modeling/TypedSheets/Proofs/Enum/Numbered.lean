import TypedSheets.Proofs.Casting.Members
import TypedSheets.Proofs.Enum.Solutions

/-!
# Generated enums

The prototypes of a workbook are the members of a generated enum, numbered in the order of their
declaration. The enum is filled in on top of what sheets declare under its name: a member that a
sheet declares keeps its place in front of the new ones, and, unless it is a prototype, its own
definition. So every prototype comes to its position, and the members are the prototypes exactly if
what the sheets declare is a beginning of the prototypes.

## Main definitions

* `Definitions.Numbered` — members come to their positions in a list of names.
* `Definitions.Enumerates` — the members of an enum are given names, and come to their positions.

## Main results

* `EnumTable.names_number` — numbering adds the names that are no members, in order.
* `EnumTable.find?_number` — a name that is numbered is defined as its number.
* `Definitions.memberComesTo_natText` — a member that is defined as a number comes to it.
* `Session.calls_numbered` — the prototypes are numbered, beside the members that sheets declare.
-/

namespace TypedSheets

open Recall

/-! ### Numbering names -/

namespace EnumTable

variable {t : EnumTable} {n : Nat} {names : List String} {name : String}

/-- Numbering adds the names that are no members yet, in order. -/
theorem names_number (hnames : names.Nodup) :
    (t.number n names).names = t.names ++ names.filter (· ∉ t.names) := by
  induction names generalizing t n with
  | nil => exact (List.append_nil _).symm
  | cons x names ih =>
    obtain ⟨hx, hnames⟩ := List.nodup_cons.1 hnames
    rw [number, ih hnames]
    by_cases hmem : x ∈ t.names
    · have hadded : ({ t with members := t.members.insert x ⟨Text.natText n, none⟩ } :
          EnumTable).names = t.names :=
        Keyed.keys_insert_of_mem hmem
      rw [hadded, List.filter_cons_of_neg (by simpa using hmem)]
    · have hadded : ({ t with members := t.members.insert x ⟨Text.natText n, none⟩ } :
          EnumTable).names = t.names ++ [x] :=
        Keyed.keys_insert_of_not_mem hmem
      -- the name that has just been added is none of the rest
      have hrest : names.filter (· ∉ t.names ++ [x]) = names.filter (· ∉ t.names) :=
        List.filter_congr fun y hy => by
          have hne : y ≠ x := fun h => hx (h ▸ hy)
          simp [hne]
      rw [hadded, hrest, List.filter_cons_of_pos (by simpa using hmem), ← List.append_cons]

/-- Numbering leaves the other members alone. -/
theorem find?_number_of_not_mem (h : name ∉ names) :
    (t.number n names).members.find? name = t.members.find? name := by
  induction names generalizing t n with
  | nil => rfl
  | cons x names ih =>
    obtain ⟨hne, hrest⟩ := not_or.1 (mt List.mem_cons.2 h)
    rw [number, ih hrest]
    exact Keyed.find?_insert_of_ne _ _ hne

/-- A name that is numbered is defined as its number. -/
theorem find?_number (hnames : names.Nodup) {i : Nat} (hi : names[i]? = some name) :
    (t.number n names).members.find? name = some ⟨Text.natText (n + i), none⟩ := by
  induction names generalizing t n i with
  | nil => simp at hi
  | cons x names ih =>
    obtain ⟨hx, hnames⟩ := List.nodup_cons.1 hnames
    rw [number]
    cases i with
    | zero =>
      obtain rfl := Option.some.inj hi
      rw [find?_number_of_not_mem hx]
      exact Keyed.find?_insert_self _ _ _
    | succ i =>
      rw [ih hnames hi, Nat.add_right_comm, Nat.add_assoc]

end EnumTable

namespace EnumTables

variable {ts : EnumTables} {enumName name : String} {names : List String}

/-- The table that a generated enum is filled in on has the members that sheets declare. -/
theorem names_getD (ts : EnumTables) (enumName : String) :
    ((ts.find? enumName).getD {}).names = ts.memberNames enumName := by
  unfold memberNames
  cases ts.find? enumName <;> rfl

/-- A generated enum is there. -/
theorem find?_declareNumbered (ts : EnumTables) (enumName : String) (names : List String) :
    (ts.declareNumbered enumName names).find? enumName =
      some (((ts.find? enumName).getD {}).number 0 names) :=
  Keyed.find?_update_self _ _ _ _

theorem memberNames_declareNumbered (hnames : names.Nodup) :
    (ts.declareNumbered enumName names).memberNames enumName =
      ts.memberNames enumName ++ names.filter (· ∉ ts.memberNames enumName) := by
  rw [memberNames, find?_declareNumbered]
  dsimp only
  rw [EnumTable.names_number hnames, names_getD]

end EnumTables

/-! ### Numbers of members -/

namespace Definitions

variable {d : Definitions} {enumName name : String} {names : List String}

/-- A member that is defined as a number of 64 bits comes to it. -/
theorem memberComesTo_natText {member : EnumMember} {k : Nat}
    (h : (d.enums.find? enumName).bind (·.members.find? name) = some member)
    (hk : member.definition = Text.natText k) {n : Int64} (hn : n.toInt = k) :
    d.MemberComesTo enumName name (.ok n) := by
  have hparse : Token.parse (Text.natText k) = .ok [.value (Text.natText k)] :=
    Token.parse_digits (Text.decimal_ne_nil k) fun _ => Text.isDigit_of_mem_decimal
  have hliteral : literal? (Text.natText k).toList = some n := by
    have hsigned := literal?_signedDecimal (n := n) (by omega)
    rw [hn] at hsigned
    rwa [Text.natText, String.toList_ofList]
  rw [memberComesTo_iff, EnumTables.memberValue, EnumTables.fresh_memberValueFrom,
    if_neg (fun h => List.not_mem_nil h.2), EnumTables.valueOf, EnumTables.expression, h]
  dsimp only
  rw [hk, hparse]
  show Recall.fresh (ExceptT.run (Token.numberOf _ _)) = _
  rw [Token.numberOf, Token.evaluate_literal hliteral]
  rfl

/-- Each of the given names is a member that comes to its position whenever it is asked for, as far
as 64 bits hold the position. -/
def Numbered (d : Definitions) (enumName : String) (names : List String) : Prop :=
  ∀ (i : Nat) name, names[i]? = some name → ∀ n : Int64, n.toInt = i →
    d.MemberComesTo enumName name (.ok n)

/-- The members of an enum are the given names in their order, and they come to their positions. -/
def Enumerates (d : Definitions) (enumName : String) (names : List String) : Prop :=
  d.enums.memberNames enumName = names ∧ d.Numbered enumName names

/-- What a member comes to is determined. -/
theorem MemberComesTo.unique {a b : Except Halt Int64} (ha : d.MemberComesTo enumName name a)
    (hb : d.MemberComesTo enumName name b) : a = b :=
  (memberComesTo_iff.1 ha).symm.trans (memberComesTo_iff.1 hb)

/-- Names that come to their positions have different numbers, if 64 bits hold all of these. -/
theorem Numbered.eq_of_memberComesTo (hnumbered : d.Numbered enumName names)
    (hfit : names.length ≤ 2 ^ 63) {x y : String} {n : Int64} (hx : x ∈ names) (hy : y ∈ names)
    (hxn : d.MemberComesTo enumName x (.ok n)) (hyn : d.MemberComesTo enumName y (.ok n)) :
    x = y := by
  have hposition : ∀ z ∈ names, d.MemberComesTo enumName z (.ok n) →
      names[n.toInt.toNat]? = some z := by
    intro z hz hzn
    obtain ⟨i, hi, hiz⟩ := List.getElem_of_mem hz
    have hget : names[i]? = some z := (List.getElem?_eq_getElem hi).trans (congrArg some hiz)
    have hint : (Int64.ofInt i).toInt = i := Int64.toInt_ofInt_of_le (by omega) (by omega)
    have hn : n = Int64.ofInt i := Except.ok.inj (hzn.unique (hnumbered i z hget _ hint))
    rwa [hn, hint, Int.toNat_natCast]
  exact Option.some.inj ((hposition x hx hxn).symm.trans (hposition y hy hyn))

end Definitions

/-! ### The enum of the prototypes -/

/-- The members that sheets declare for the enum of the prototypes. -/
def Workbook.declaredCalls (w : Workbook) (settings : Settings) : List String :=
  (EnumTables.ofSheets w.enums).memberNames settings.callEnum

namespace Session

variable (settings : Settings) (w : Workbook)

theorem memberNames_calls :
    (ofWorkbook settings w).defs.enums.memberNames settings.callEnum =
      w.declaredCalls settings ++
        w.prototypes.keys.filter (· ∉ w.declaredCalls settings) :=
  EnumTables.memberNames_declareNumbered w.prototypes.nodup_keys

/-- The members are the prototypes exactly if sheets declare a beginning of them. -/
theorem memberNames_calls_eq_iff :
    (ofWorkbook settings w).defs.enums.memberNames settings.callEnum = w.prototypes.keys ↔
      w.declaredCalls settings <+: w.prototypes.keys := by
  rw [memberNames_calls]
  constructor
  · exact fun h => ⟨_, h⟩
  · rintro ⟨rest, hrest⟩
    have hdistinct := w.prototypes.nodup_keys
    rw [← hrest] at hdistinct ⊢
    obtain ⟨-, -, hdisjoint⟩ := List.nodup_append.1 hdistinct
    rw [List.filter_append, List.filter_eq_nil_iff.2 (by simp), List.nil_append,
      List.filter_eq_self.2]
    intro name hname
    simpa using fun h => hdisjoint name h name hname rfl

/-- Every prototype comes to its position. -/
theorem numbered_prototypes :
    (ofWorkbook settings w).defs.Numbered settings.callEnum w.prototypes.keys := by
  intro i name hi n hn
  have hfind : ((ofWorkbook settings w).defs.enums.find? settings.callEnum).bind
      (·.members.find? name) = some ⟨Text.natText i, none⟩ := by
    show Option.bind ((EnumTables.declareNumbered _ _ _).find? _) _ = _
    rw [EnumTables.find?_declareNumbered, Option.bind_some,
      EnumTable.find?_number w.prototypes.nodup_keys hi, Nat.zero_add]
  exact Definitions.memberComesTo_natText hfind rfl hn

/-- **The prototypes of a workbook are numbered members of the generated enum.** For every workbook
and all settings the enum is there, its members are those that sheets declare for it, followed by
the other prototypes in the order of their declaration, and every prototype comes to its position
whenever it is asked for. So different prototypes have different numbers. A member that is no
prototype keeps the definition that a sheet gives it. The members are the prototypes in their order
exactly if what sheets declare is a beginning of them, in particular if no sheet declares the
enum. -/
theorem calls_numbered :
    (ofWorkbook settings w).defs.enums.contains settings.callEnum = true ∧
    (ofWorkbook settings w).defs.enums.memberNames settings.callEnum =
      w.declaredCalls settings ++
        w.prototypes.keys.filter (· ∉ w.declaredCalls settings) ∧
    (ofWorkbook settings w).defs.Numbered settings.callEnum w.prototypes.keys ∧
    (w.prototypes.keys.length ≤ 2 ^ 63 → ∀ x ∈ w.prototypes.keys, ∀ y ∈ w.prototypes.keys,
      ∀ n : Int64, (ofWorkbook settings w).defs.MemberComesTo settings.callEnum x (.ok n) →
        (ofWorkbook settings w).defs.MemberComesTo settings.callEnum y (.ok n) → x = y) ∧
    (∀ name ∉ w.prototypes.keys,
      ((ofWorkbook settings w).defs.enums.find? settings.callEnum).bind (·.members.find? name) =
        ((EnumTables.ofSheets w.enums).find? settings.callEnum).bind (·.members.find? name)) ∧
    ((ofWorkbook settings w).defs.Enumerates settings.callEnum w.prototypes.keys ↔
      w.declaredCalls settings <+: w.prototypes.keys) := by
  have hfind : (ofWorkbook settings w).defs.enums.find? settings.callEnum = some
      ((((EnumTables.ofSheets w.enums).find? settings.callEnum).getD {}).number 0
        w.prototypes.keys) :=
    EnumTables.find?_declareNumbered _ _ _
  have hnumbered := numbered_prototypes settings w
  refine ⟨by rw [Keyed.contains, hfind]; rfl, memberNames_calls settings w, hnumbered, ?_, ?_, ?_⟩
  · intro hfit x hx y hy n hxn hyn
    exact hnumbered.eq_of_memberComesTo hfit hx hy hxn hyn
  · intro name hname
    rw [hfind, Option.bind_some, EnumTable.find?_number_of_not_mem hname]
    cases (EnumTables.ofSheets w.enums).find? settings.callEnum <;> rfl
  · rw [← memberNames_calls_eq_iff]
    exact ⟨fun h => h.1, fun h => ⟨h, hnumbered⟩⟩

end Session

namespace Workbook

/-- A workbook with one prototype, and a sheet that declares a member of the enum of the
prototypes. -/
def markedCalls : Workbook where
  enums := [{ location := { file := "enums", sheet := "Calls", row := none },
              table := "DslFunctionType", members := [("None", "0")] }]
  prototypes := Prototypes.declare .empty "Lerp" [{ name := "t", type := "float" }]

/-- The member that the sheet declares stays one, in front of the prototype, and both have one
number. -/
theorem calls_share_number :
    (Session.ofWorkbook {} markedCalls).defs.enums.memberNames "DslFunctionType" =
      ["None", "Lerp"] ∧
    (Session.ofWorkbook {} markedCalls).defs.MemberComesTo "DslFunctionType" "None" (.ok 0) ∧
    (Session.ofWorkbook {} markedCalls).defs.MemberComesTo "DslFunctionType" "Lerp" (.ok 0) ∧
    ¬ (Session.ofWorkbook {} markedCalls).defs.Enumerates "DslFunctionType"
      markedCalls.prototypes.keys := by
  have hnames : (Session.ofWorkbook {} markedCalls).defs.enums.memberNames "DslFunctionType" =
      ["None", "Lerp"] := by
    decide +kernel
  have hnone : ((Session.ofWorkbook {} markedCalls).defs.enums.find? "DslFunctionType").bind
      (·.members.find? "None") =
        some ⟨"0", some { file := "enums", sheet := "Calls", row := none }⟩ := by
    decide +kernel
  have hcalls : markedCalls.prototypes.keys = ["Lerp"] := by decide +kernel
  refine ⟨hnames, Definitions.memberComesTo_natText (k := 0) hnone (by decide +kernel) rfl,
    Session.numbered_prototypes {} markedCalls 0 "Lerp" (by rw [hcalls]; rfl) 0 rfl, ?_⟩
  rintro ⟨h, -⟩
  rw [hnames, hcalls] at h
  exact absurd h (by decide)

end Workbook

end TypedSheets
