import Mathlib.Data.List.Nodup
import Mathlib.Data.List.Perm.Subperm
import Mathlib.Logic.Relation
import TypedSheets.Proofs.Keyed
import TypedSheets.Schema

/-!
# Lines of base tables

Every table may name a base table, which may name another, and so on. Such a line of tables ends at
a table that names none, or at a name that no table has, or it comes back to a table that it has
passed and goes round from then on. The line from a table is found by looking up one table after the
other and remembering those that were passed. The three ends exclude each other, since a table names
one base table at most.

## Main definitions

* `Schemas.declareAll` — the collections of tables.
* `Schemas.BasedOn` — one link.
* `Schemas.Line` — the tables up to one that names no base table.

## Main results

* `Schemas.exists_line_of_depthFrom`, `Schemas.fault_of_depthFrom` — what the search comes to.
* `Schemas.not_cycle_of_end` — a line that ends passes no table twice.
* `Schemas.inheritanceDepth_iff` — the depth of a table, by the line from it.
-/

namespace TypedSheets.Schemas

open Relation (ReflTransGen TransGen)

/-! ### Collections of tables -/

/-- The collection of the given tables, declared one after the other. -/
def declareAll (tables : List Schema) : Schemas :=
  tables.foldl declare .empty

/-- Every table is entered under its name. -/
def ByName (ss : Schemas) : Prop :=
  ∀ name t, ss.find? name = some t → t.name = name

variable {ss : Schemas} {table base name : String}

theorem ByName.declare (h : ss.ByName) (t : Schema) : (ss.declare t).ByName := by
  intro name u hu
  by_cases hname : name = t.name
  · subst hname
    rw [Schemas.declare, Keyed.find?_insert_self] at hu
    cases hu
    rfl
  · rw [Schemas.declare, Keyed.find?_insert_of_ne _ _ hname] at hu
    exact h name u hu

theorem declareAll_byName (tables : List Schema) : (declareAll tables).ByName := by
  suffices h : ∀ ss : Schemas, ss.ByName → (tables.foldl Schemas.declare ss).ByName from
    h .empty nofun
  induction tables with
  | nil => exact fun _ h => h
  | cons t tables ih => exact fun ss h => ih _ (h.declare t)

/-! ### Links -/

/-- A table names another as its base table. -/
def BasedOn (ss : Schemas) (table base : String) : Prop :=
  (ss.find? table).bind (·.based) = some base

/-- A table that names no base table. -/
def IsRoot (ss : Schemas) (table : String) : Prop :=
  ∃ t, ss.find? table = some t ∧ t.based = none

theorem basedOn_of_find? {t : Schema} (ht : ss.find? table = some t) (hbase : t.based = some base) :
    ss.BasedOn table base := by
  rw [BasedOn, ht]
  exact hbase

/-- A table names one base table at most. -/
theorem BasedOn.unique : Relator.RightUnique ss.BasedOn :=
  fun _ _ _ h h' => Option.some.inj (h.symm.trans h')

theorem BasedOn.mem_keys (h : ss.BasedOn table base) : table ∈ ss.keys := by
  obtain ⟨t, ht, -⟩ := Option.bind_eq_some_iff.1 h
  exact Keyed.mem_keys_of_find? ht

theorem IsRoot.mem_keys (h : ss.IsRoot table) : table ∈ ss.keys := by
  obtain ⟨t, ht, -⟩ := h
  exact Keyed.mem_keys_of_find? ht

theorem IsRoot.not_basedOn (h : ss.IsRoot table) (base : String) : ¬ ss.BasedOn table base := by
  obtain ⟨t, ht, hnone⟩ := h
  rw [BasedOn, ht, Option.bind_some, hnone]
  nofun

theorem not_basedOn_of_not_mem (h : table ∉ ss.keys) (base : String) : ¬ ss.BasedOn table base :=
  fun hlink => h hlink.mem_keys

/-! ### Ends and cycles -/

/-- Where links come back to a table, they come back to all tables that they lead to from it. -/
theorem transGen_of_cycle {c : String} (hcycle : TransGen ss.BasedOn c c)
    (h : ReflTransGen ss.BasedOn c name) : TransGen ss.BasedOn name name := by
  induction h with
  | refl => exact hcycle
  | tail _ hlink ih =>
    obtain ⟨next, hnext, hback⟩ := TransGen.head'_iff.1 ih
    cases BasedOn.unique hlink hnext
    exact .tail' hback hlink

/-- **A line that ends passes no table twice.** -/
theorem not_cycle_of_end {last c : String} (hend : ∀ base, ¬ ss.BasedOn last base)
    (hlast : ReflTransGen ss.BasedOn table last) (hc : ReflTransGen ss.BasedOn table c) :
    ¬ TransGen ss.BasedOn c c := by
  intro hcycle
  have hround : TransGen ss.BasedOn last last := by
    rcases ReflTransGen.total_of_right_unique BasedOn.unique hlast hc with h | h
    · rcases h.cases_head with rfl | ⟨base, hlink, -⟩
      · exact hcycle
      · exact absurd hlink (hend base)
    · exact transGen_of_cycle hcycle h
  obtain ⟨base, hlink, -⟩ := TransGen.head'_iff.1 hround
  exact hend base hlink

/-- A line ends at one place at most. -/
theorem eq_of_ends {last last' : String} (hend : ∀ base, ¬ ss.BasedOn last base)
    (hend' : ∀ base, ¬ ss.BasedOn last' base) (h : ReflTransGen ss.BasedOn table last)
    (h' : ReflTransGen ss.BasedOn table last') : last = last' := by
  rcases ReflTransGen.total_of_right_unique BasedOn.unique h h' with h | h
  · rcases h.cases_head with rfl | ⟨base, hlink, -⟩
    · rfl
    · exact absurd hlink (hend base)
  · rcases h.cases_head with rfl | ⟨base, hlink, -⟩
    · rfl
    · exact absurd hlink (hend' base)

/-! ### Lines -/

/-- The tables that the links from a table lead through, up to one that names no base table. -/
inductive Line (ss : Schemas) : String → List String → Prop
  | root {table : String} (h : ss.IsRoot table) : Line ss table [table]
  | link {table base : String} {line : List String} (h : ss.BasedOn table base)
      (hrest : Line ss base line) : Line ss table (table :: line)

namespace Line

variable {line : List String}

theorem length_pos (h : ss.Line table line) : 0 < line.length := by
  cases h <;> exact Nat.succ_pos _

/-- A line leads to its end. -/
theorem exists_root (h : ss.Line table line) :
    ∃ root, ReflTransGen ss.BasedOn table root ∧ ss.IsRoot root := by
  induction h with
  | root h => exact ⟨_, .refl, h⟩
  | link hlink _ ih =>
    obtain ⟨root, hreach, hroot⟩ := ih
    exact ⟨root, .head hlink hreach, hroot⟩

/-- From a line that ends no table leads back to itself. -/
theorem not_cycle {c : String} (h : ss.Line table line) (hc : ReflTransGen ss.BasedOn table c) :
    ¬ TransGen ss.BasedOn c c := by
  obtain ⟨root, hreach, hroot⟩ := h.exists_root
  exact not_cycle_of_end hroot.not_basedOn hreach hc

/-- From a line that ends no link leads to a name that no table has. -/
theorem mem_keys_of_reaches (h : ss.Line table line) (hname : ReflTransGen ss.BasedOn table name) :
    name ∈ ss.keys := by
  obtain ⟨root, hreach, hroot⟩ := h.exists_root
  by_contra hnone
  have hend := eq_of_ends hroot.not_basedOn (not_basedOn_of_not_mem hnone) hreach hname
  exact hnone (hend ▸ hroot.mem_keys)

theorem reaches_of_mem (h : ss.Line table line) (hmem : name ∈ line) :
    ReflTransGen ss.BasedOn table name := by
  induction h with
  | root h =>
    cases List.mem_singleton.1 hmem
    exact .refl
  | link hlink _ ih =>
    rcases List.mem_cons.1 hmem with rfl | hmem
    · exact .refl
    · exact .head hlink (ih hmem)

/-- The tables of a line are there. -/
theorem mem_keys (h : ss.Line table line) : ∀ name ∈ line, name ∈ ss.keys := by
  induction h with
  | root h => exact List.forall_mem_singleton.2 h.mem_keys
  | link hlink _ ih => exact List.forall_mem_cons.2 ⟨hlink.mem_keys, ih⟩

/-- The tables of a line are distinct. -/
theorem nodup (h : ss.Line table line) : line.Nodup := by
  induction h with
  | root h => exact List.nodup_singleton _
  | link hlink hrest ih =>
    refine List.nodup_cons.2 ⟨fun hmem => ?_, ih⟩
    exact (Line.link hlink hrest).not_cycle .refl (.head' hlink (hrest.reaches_of_mem hmem))

/-- There is one line from a table at most. -/
theorem unique {line' : List String} (h : ss.Line table line) (h' : ss.Line table line') :
    line = line' := by
  induction h generalizing line' with
  | root hroot =>
    cases h' with
    | root _ => rfl
    | link hlink _ => exact absurd hlink (hroot.not_basedOn _)
  | link hlink _ ih =>
    cases h' with
    | root hroot => exact absurd hlink (hroot.not_basedOn _)
    | link hlink' hrest' =>
      cases BasedOn.unique hlink hlink'
      rw [ih hrest']

/-- There are at least as many tables as a line passes. -/
theorem length_le (h : ss.Line table line) : line.length ≤ ss.size := by
  rw [← Keyed.length_keys]
  exact (List.subperm_of_subset h.nodup h.mem_keys).length_le

end Line

/-! ### The search -/

/-- A depth is the length of a line. -/
theorem exists_line_of_depthFrom {start : String} {seen : List String} {current : Schema} {n : Nat}
    (hss : ss.ByName) (hcurrent : ss.find? current.name = some current)
    (h : ss.depthFrom start seen current = .ok n) :
    ∃ line, ss.Line current.name line ∧ line.length = n + 1 := by
  fun_induction depthFrom ss start seen current generalizing n with
  | case1 seen current hroot =>
    cases h
    exact ⟨_, .root ⟨current, hcurrent, hroot⟩, rfl⟩
  | case2 seen current based hbased hmem => cases h
  | case3 seen current based hbased hnew hnone => cases h
  | case4 seen current based hbased hnew next hnext _ ih =>
    obtain ⟨m, hm, rfl⟩ := Except.exists_of_map_ok h
    have hname := hss based next hnext
    obtain ⟨line, hline, hlength⟩ := ih (hname.symm ▸ hnext) hm
    rw [hname] at hline
    refine ⟨_, .link (basedOn_of_find? hcurrent hbased) hline, ?_⟩
    rw [List.length_cons, hlength]

/-- What keeps a table from having a depth: links that come back to a table, or a base table that is
not there. -/
inductive Fault (ss : Schemas) (start table : String) : Failure → Prop
  | cycle {c : String} (hc : ReflTransGen ss.BasedOn table c) (hcycle : TransGen ss.BasedOn c c) :
      Fault ss start table (inheritanceCycle start c)
  | missing {last base : String} (hlast : ReflTransGen ss.BasedOn table last)
      (hlink : ss.BasedOn last base) (hnone : base ∉ ss.keys) :
      Fault ss start table (undefinedBase base last)

/-- A fault further up is one from below. -/
theorem Fault.of_basedOn {start : String} {f : Failure} (hlink : ss.BasedOn table base)
    (h : ss.Fault start base f) : ss.Fault start table f := by
  cases h with
  | cycle hc hcycle => exact .cycle (.head hlink hc) hcycle
  | missing hlast hbase hnone => exact .missing (.head hlink hlast) hbase hnone

/-- What the search complains about is there, if the tables that were seen lead to the one that was
reached. -/
theorem fault_of_depthFrom {start : String} {seen : List String} {current : Schema} {f : Failure}
    (hss : ss.ByName) (hcurrent : ss.find? current.name = some current)
    (hseen : ∀ name ∈ seen, ReflTransGen ss.BasedOn name current.name)
    (h : ss.depthFrom start seen current = .error f) : ss.Fault start current.name f := by
  fun_induction depthFrom ss start seen current with
  | case1 seen current hroot => cases h
  | case2 seen current based hbased hmem =>
    -- the base table was seen, so it leads to the table that names it
    cases h
    have hlink := basedOn_of_find? hcurrent hbased
    exact .cycle (.single hlink) (.tail' (hseen based hmem) hlink)
  | case3 seen current based hbased hnew hnone =>
    cases h
    exact .missing .refl (basedOn_of_find? hcurrent hbased) (Keyed.find?_eq_none_iff.1 hnone)
  | case4 seen current based hbased hnew next hnext _ ih =>
    have hname := hss based next hnext
    have hlink := basedOn_of_find? hcurrent hbased
    have hfault : ss.Fault start next.name f := by
      refine ih (hname.symm ▸ hnext) (fun name hmem => ?_) ?_
      · rw [hname]
        rcases List.mem_cons.1 hmem with rfl | hmem
        · exact .refl
        · exact (hseen name hmem).tail hlink
      · cases hdepth : ss.depthFrom start (based :: seen) next with
        | ok n =>
          rw [hdepth] at h
          cases h
        | error g =>
          rw [hdepth] at h
          exact h
    rw [hname] at hfault
    exact hfault.of_basedOn hlink

/-- **What the search comes to**: a depth with a line, a table that the links come back to, or a
name that no table has. -/
theorem inheritanceDepth_cases (hss : ss.ByName) (table : String) :
    (∃ n line, ss.inheritanceDepth table = .ok n ∧ ss.Line table line ∧ line.length = n + 1) ∨
      (∃ c, ss.inheritanceDepth table = .error (inheritanceCycle table c) ∧
        ReflTransGen ss.BasedOn table c ∧ TransGen ss.BasedOn c c) ∨
      ∃ detail name, ss.inheritanceDepth table = .error (.reference detail) ∧
        ReflTransGen ss.BasedOn table name ∧ name ∉ ss.keys := by
  rw [inheritanceDepth]
  cases hfind : ss.find? table with
  | none => exact .inr (.inr ⟨_, table, rfl, .refl, Keyed.find?_eq_none_iff.1 hfind⟩)
  | some t =>
    obtain rfl := hss table t hfind
    dsimp only
    cases hdepth : ss.depthFrom t.name [t.name] t with
    | ok n =>
      obtain ⟨line, hline, hlength⟩ := exists_line_of_depthFrom hss hfind hdepth
      exact .inl ⟨n, line, rfl, hline, hlength⟩
    | error f =>
      have hseen : ∀ name ∈ [t.name], ReflTransGen ss.BasedOn name t.name :=
        List.forall_mem_singleton.2 .refl
      cases fault_of_depthFrom hss hfind hseen hdepth with
      | cycle hc hcycle => exact .inr (.inl ⟨_, rfl, hc, hcycle⟩)
      | missing hlast hlink hnone => exact .inr (.inr ⟨_, _, rfl, hlast.tail hlink, hnone⟩)

/-! ### Depths -/

/-- A table has a depth if and only if its line ends at a table without a base table. -/
theorem inheritanceDepth_eq_ok_iff (hss : ss.ByName) {n : Nat} :
    ss.inheritanceDepth table = .ok n ↔ ∃ line, ss.Line table line ∧ line.length = n + 1 := by
  rcases inheritanceDepth_cases hss table with
    ⟨m, line, hm, hline, hlength⟩ | ⟨c, hf, hc, hcycle⟩ | ⟨detail, name, hf, hname, hnone⟩
  · rw [hm]
    constructor
    · rintro ⟨⟩
      exact ⟨line, hline, hlength⟩
    · rintro ⟨line', hline', hlength'⟩
      rw [hline'.unique hline, hlength] at hlength'
      rw [Nat.succ.inj hlength']
  · rw [hf]
    exact iff_of_false nofun fun ⟨line, hline, _⟩ => hline.not_cycle hc hcycle
  · rw [hf]
    exact iff_of_false nofun fun ⟨line, hline, _⟩ => hnone (hline.mem_keys_of_reaches hname)

/-- There is a conflict if and only if the line of a table comes back to a table on it. -/
theorem inheritanceDepth_conflict_iff (hss : ss.ByName) :
    (∃ detail, ss.inheritanceDepth table = .error (.schemaConflict detail)) ↔
      ∃ c, ReflTransGen ss.BasedOn table c ∧ TransGen ss.BasedOn c c := by
  rcases inheritanceDepth_cases hss table with
    ⟨n, line, hn, hline, -⟩ | ⟨c, hf, hc, hcycle⟩ | ⟨detail, name, hf, hname, hnone⟩
  · rw [hn]
    exact iff_of_false nofun fun ⟨c, hc, hcycle⟩ => hline.not_cycle hc hcycle
  · rw [hf]
    exact iff_of_true ⟨_, rfl⟩ ⟨c, hc, hcycle⟩
  · rw [hf]
    exact iff_of_false nofun fun ⟨c, hc, hcycle⟩ =>
      not_cycle_of_end (not_basedOn_of_not_mem hnone) hname hc hcycle

/-- A reference fails if and only if the line of a table leads to a name that no table has. -/
theorem inheritanceDepth_reference_iff (hss : ss.ByName) :
    (∃ detail, ss.inheritanceDepth table = .error (.reference detail)) ↔
      ∃ name, ReflTransGen ss.BasedOn table name ∧ name ∉ ss.keys := by
  rcases inheritanceDepth_cases hss table with
    ⟨n, line, hn, hline, -⟩ | ⟨c, hf, hc, hcycle⟩ | ⟨detail, name, hf, hname, hnone⟩
  · rw [hn]
    exact iff_of_false nofun fun ⟨name, hname, hnone⟩ => hnone (hline.mem_keys_of_reaches hname)
  · rw [hf]
    exact iff_of_false nofun fun ⟨name, hname, hnone⟩ =>
      not_cycle_of_end (not_basedOn_of_not_mem hnone) hname hc hcycle
  · rw [hf]
    exact iff_of_true ⟨detail, rfl⟩ ⟨name, hname, hnone⟩

/-- The depth of a table is one more than that of its base table. -/
theorem inheritanceDepth_basedOn (hss : ss.ByName) (hlink : ss.BasedOn table base) {n : Nat} :
    ss.inheritanceDepth table = .ok n ↔ ∃ m, ss.inheritanceDepth base = .ok m ∧ n = m + 1 := by
  rw [inheritanceDepth_eq_ok_iff hss]
  constructor
  · rintro ⟨line, hline, hlength⟩
    cases hline with
    | root hroot => exact absurd hlink (hroot.not_basedOn base)
    | link hlink' hrest =>
      cases BasedOn.unique hlink hlink'
      have hpos := hrest.length_pos
      rw [List.length_cons] at hlength
      exact ⟨n - 1, (inheritanceDepth_eq_ok_iff hss).2 ⟨_, hrest, by omega⟩, by omega⟩
  · rintro ⟨m, hm, rfl⟩
    obtain ⟨line, hline, hlength⟩ := (inheritanceDepth_eq_ok_iff hss).1 hm
    exact ⟨_, .link hlink hline, by rw [List.length_cons, hlength]⟩

/-- **The depth of a table is the length of the line of its base tables.** For every collection of
tables and every name there is a depth, a conflict or a failing reference. The depth is `n` if and
only if the links from the table lead through `n + 1` distinct tables that are there, the last of
which has no base table; then it is less than the number of tables, and one more than the depth of
the base table. There is a conflict if and only if the links come back to a table that they have led
to, be it the first one or not, and a reference fails if and only if they lead to a name that no
table has, or start at one. -/
theorem inheritanceDepth_iff (tables : List Schema) (table : String) :
    let ss := declareAll tables
    ((∃ n, ss.inheritanceDepth table = .ok n) ∨
        (∃ detail, ss.inheritanceDepth table = .error (.schemaConflict detail)) ∨
        ∃ detail, ss.inheritanceDepth table = .error (.reference detail)) ∧
      (∀ n, ss.inheritanceDepth table = .ok n ↔
        ∃ line, ss.Line table line ∧ line.Nodup ∧ (∀ name ∈ line, name ∈ ss.keys) ∧
          line.length = n + 1) ∧
      (∀ n, ss.inheritanceDepth table = .ok n → n < ss.size ∧
        ∀ base, ss.BasedOn table base → ∃ m, ss.inheritanceDepth base = .ok m ∧ n = m + 1) ∧
      ((∃ detail, ss.inheritanceDepth table = .error (.schemaConflict detail)) ↔
        ∃ c, ReflTransGen ss.BasedOn table c ∧ TransGen ss.BasedOn c c) ∧
      ((∃ detail, ss.inheritanceDepth table = .error (.reference detail)) ↔
        ∃ name, ReflTransGen ss.BasedOn table name ∧ name ∉ ss.keys) := by
  intro ss
  have hss : ss.ByName := declareAll_byName tables
  refine ⟨?_, fun n => ?_, fun n hn => ⟨?_, fun base hlink => ?_⟩,
    inheritanceDepth_conflict_iff hss, inheritanceDepth_reference_iff hss⟩
  · rcases inheritanceDepth_cases hss table with ⟨n, _, hn, -⟩ | ⟨c, hf, -⟩ | ⟨detail, _, hf, -⟩
    · exact .inl ⟨n, hn⟩
    · exact .inr (.inl ⟨_, hf⟩)
    · exact .inr (.inr ⟨detail, hf⟩)
  · rw [inheritanceDepth_eq_ok_iff hss]
    constructor
    · rintro ⟨line, hline, hlength⟩
      exact ⟨line, hline, hline.nodup, hline.mem_keys, hlength⟩
    · rintro ⟨line, hline, -, -, hlength⟩
      exact ⟨line, hline, hlength⟩
  · obtain ⟨line, hline, hlength⟩ := (inheritanceDepth_eq_ok_iff hss).1 hn
    have hle := hline.length_le
    omega
  · exact (inheritanceDepth_basedOn hss hlink).1 hn

/-- Swords are weapons and weapons are items; stairs lead into a circle of doors and halls, and a
window belongs to a wall that is not there. -/
def relatives : List Schema :=
  [⟨"Item", none, "Item", .empty⟩, ⟨"Weapon", some "Item", "Item", .empty⟩,
    ⟨"Sword", some "Weapon", "Item", .empty⟩, ⟨"Stairs", some "Door", "House", .empty⟩,
    ⟨"Door", some "Hall", "House", .empty⟩, ⟨"Hall", some "Door", "House", .empty⟩,
    ⟨"Window", some "Wall", "House", .empty⟩]

/-- Swords have a depth of two, stairs are in conflict, and a window refers to nothing. -/
theorem inheritanceDepth_relatives :
    let ss := declareAll relatives
    ss.inheritanceDepth "Sword" = .ok 2 ∧ 2 < ss.size ∧ ss.BasedOn "Sword" "Weapon" ∧
      ss.inheritanceDepth "Weapon" = .ok 1 ∧
      (∃ detail, ss.inheritanceDepth "Stairs" = .error (.schemaConflict detail)) ∧
      ∃ detail, ss.inheritanceDepth "Window" = .error (.reference detail) := by
  intro ss
  obtain ⟨-, hok, hbelow, -, -⟩ := inheritanceDepth_iff relatives "Sword"
  obtain ⟨-, -, -, hconflict, -⟩ := inheritanceDepth_iff relatives "Stairs"
  obtain ⟨-, -, -, -, hreference⟩ := inheritanceDepth_iff relatives "Window"
  have hsword : ss.BasedOn "Sword" "Weapon" := rfl
  have hweapon : ss.BasedOn "Weapon" "Item" := rfl
  have hline : ss.Line "Sword" ["Sword", "Weapon", "Item"] :=
    .link hsword (.link hweapon (.root ⟨_, rfl, rfl⟩))
  have hdepth : ss.inheritanceDepth "Sword" = .ok 2 :=
    (hok 2).2 ⟨_, hline, by decide, by decide, rfl⟩
  obtain ⟨hless, hbase⟩ := hbelow 2 hdepth
  obtain ⟨m, hm, hsucc⟩ := hbase "Weapon" hsword
  obtain rfl : m = 1 := by omega
  refine ⟨hdepth, hless, hsword, hm, hconflict.2 ⟨"Hall", ?_, ?_⟩, hreference.2 ⟨"Wall", ?_, ?_⟩⟩
  · exact .tail (.single (b := "Door") rfl) rfl
  · exact .tail (.single (b := "Door") rfl) rfl
  · exact .single rfl
  · decide

end TypedSheets.Schemas
