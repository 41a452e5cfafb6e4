import TypedSheets.Enum.Registry
import TypedSheets.Proofs.Keyed

/-!
# Declarations of members

Sheets declare the members of enums. An enum may be declared by several sheets, a name may be
declared several times, on one sheet or on different ones, and the sheets of one enum may stand
between those of others. Merging loses no declaration: the first one of a name defines the member,
and every later one is kept as a duplicate, with its own sheet.

## Main definitions

* `Declaration` — what one line of a sheet declares.
* `Declaration.names`, `Declaration.first`, `Declaration.repeats` — the names that declarations
  declare, the first declaration of a name, and the later ones.
* `EnumTable.Holds`, `EnumTable.Merges` — an enum holds declarations, and those of whole sheets.

## Main results

* `Declaration.length_names_add` — every declaration is the first of its name or a later one.
* `EnumTable.Holds.declare` — what one more declaration adds.
* `EnumTables.keys_ofSheets` — the enums in the order of their first sheets.
* `EnumTables.merges_ofSheets` — an enum holds the declarations of its sheets.
-/

namespace TypedSheets

/-- A declaration of a member. -/
structure Declaration where
  /-- The name of the member. -/
  name : String
  /-- The definition, as it is written. -/
  definition : String
  /-- The sheet that the declaration stands on. -/
  location : Location
deriving DecidableEq

/-- The declarations of a sheet, in order. -/
def EnumSheet.declarations (sheet : EnumSheet) : List Declaration :=
  sheet.members.map fun m => ⟨m.1, m.2, sheet.location⟩

/-! ### First and later declarations -/

namespace Declaration

/-- The names that are declared, each once, in the order of their first declarations. -/
def names (ds : List Declaration) : List String :=
  (ds.map name).eraseDups

/-- The first declaration of the name that a declaration declares. -/
def first (ds : List Declaration) (d : Declaration) : Declaration :=
  (ds.find? (·.name = d.name)).getD d

/-- The later declarations: those of a name that is declared in front of them. -/
def repeats (ds : List Declaration) : List Declaration :=
  (ds.zipIdx.filter fun e => e.1.name ∈ (ds.take e.2).map name).map Prod.fst

/-- The member that a declaration defines, if it is the first of its name. -/
def member (d : Declaration) : EnumMember :=
  ⟨Text.trimmed d.definition, some d.location⟩

variable {ds : List Declaration} {d : Declaration}

theorem mem_names {x : String} : x ∈ names ds ↔ x ∈ ds.map name :=
  List.mem_eraseDups

/-- One more declaration adds its name, unless that is declared already. -/
theorem names_concat (ds : List Declaration) (d : Declaration) :
    names (ds ++ [d]) = if d.name ∈ ds.map name then names ds else names ds ++ [d.name] := by
  rw [names, List.map_append, List.map_singleton, List.eraseDups_concat]
  rfl

/-- One more declaration is a later one if its name is declared already. -/
theorem repeats_concat (ds : List Declaration) (d : Declaration) :
    repeats (ds ++ [d]) = repeats ds ++ if d.name ∈ ds.map name then [d] else [] := by
  unfold repeats
  rw [List.zipIdx_append, List.filter_append, List.map_append]
  refine congrArg₂ _ (congrArg _ (List.filter_congr fun e he => ?_)) ?_
  · -- the same declarations stand in front of the old ones
    have hlt : e.2 < ds.length := List.snd_lt_of_mem_zipIdx he
    rw [List.take_append_of_le_length (Nat.le_of_lt hlt)]
  · by_cases hd : d.name ∈ ds.map name <;> simp [hd]

theorem mem_of_mem_repeats (h : d ∈ repeats ds) : d ∈ ds := by
  obtain ⟨e, he, rfl⟩ := List.mem_map.1 h
  exact List.fst_mem_of_mem_zipIdx (List.mem_of_mem_filter he)

/-- Every declaration is the first of its name or a later one. -/
theorem length_names_add (ds : List Declaration) :
    (names ds).length + (repeats ds).length = ds.length := by
  induction ds using List.reverseRecOn with
  | nil => rfl
  | append_singleton ds d ih =>
    rw [names_concat, repeats_concat, List.length_append, List.length_append, List.length_singleton]
    split
    · rw [List.length_singleton]
      omega
    · rw [List.length_append, List.length_singleton, List.length_nil]
      omega

/-- A name that is declared has a first declaration. -/
theorem find?_eq_first (h : d ∈ ds) : ds.find? (·.name = d.name) = some (first ds d) := by
  have hsome : (ds.find? (·.name = d.name)).isSome = true :=
    List.find?_isSome.2 ⟨d, h, decide_eq_true rfl⟩
  obtain ⟨x, hx⟩ := Option.isSome_iff_exists.1 hsome
  rw [first, hx, Option.getD_some]

/-- One more declaration is the first of its name if that is not declared yet. -/
theorem find?_concat (ds : List Declaration) (d : Declaration) (x : String) :
    (ds ++ [d]).find? (·.name = x) =
      if d.name = x ∧ x ∉ ds.map name then some d else ds.find? (·.name = x) := by
  rw [List.find?_append]
  by_cases hx : x ∈ ds.map name
  · rw [if_neg fun h => h.2 hx]
    obtain ⟨d', hd', rfl⟩ := List.mem_map.1 hx
    rw [find?_eq_first hd', Option.some_or]
  · have hnone : ds.find? (·.name = x) = none := by
      rw [List.find?_eq_none]
      intro d' hd' h
      exact hx (of_decide_eq_true h ▸ List.mem_map_of_mem hd')
    rw [hnone, Option.none_or, List.find?_singleton]
    simp [hx]

end Declaration

/-! ### Merging sheets -/

open Declaration

namespace EnumTable

/-- An enum holds declarations: a member for each name, and every later declaration as a
duplicate. -/
structure Holds (t : EnumTable) (ds : List Declaration) : Prop where
  /-- The members are the names that are declared, in the order of their first declarations. -/
  names : t.names = Declaration.names ds
  /-- Each is defined by the first declaration of its name. -/
  find?_members (name : String) :
    t.members.find? name = (ds.find? (·.name = name)).map Declaration.member
  /-- The duplicates are the later declarations in order, each with its own sheet. -/
  duplicates : t.duplicates = (repeats ds).map fun d => (d.name, some d.location)

/-- An enum holds the declarations of sheets, and knows the sheets. -/
structure Merges (t : EnumTable) (sheets : List EnumSheet) : Prop
    extends Holds t (sheets.flatMap EnumSheet.declarations) where
  /-- The sheets are known in order. -/
  locations : t.locations = sheets.map EnumSheet.location

namespace Holds

variable {t : EnumTable} {ds : List Declaration}

theorem contains_iff (h : t.Holds ds) {x : String} :
    t.contains x = true ↔ x ∈ ds.map Declaration.name := by
  rw [← mem_names, ← h.names]
  exact Keyed.isSome_find?_iff

/-- Members and duplicates are as many as the declarations. -/
theorem size_add_length (h : t.Holds ds) :
    t.members.size + t.duplicates.length = ds.length := by
  have hsize : t.members.size = (Declaration.names ds).length := by
    rw [← h.names]
    exact t.members.length_keys.symm
  rw [hsize, h.duplicates, List.length_map, length_names_add]

/-- One more declaration is held. -/
theorem declare (h : t.Holds ds) (d : Declaration) :
    (t.declare d.location (d.name, d.definition)).Holds (ds ++ [d]) := by
  unfold EnumTable.declare
  by_cases hd : d.name ∈ ds.map Declaration.name
  · rw [if_pos (h.contains_iff.2 hd)]
    refine ⟨?_, fun x => ?_, ?_⟩
    · rw [names_concat, if_pos hd]
      exact h.names
    · rw [find?_concat, if_neg fun hx => hx.2 (hx.1 ▸ hd)]
      exact h.find?_members x
    · rw [repeats_concat, if_pos hd, List.map_append, ← h.duplicates]
      rfl
  · have hnew : d.name ∉ t.members.keys := mt Keyed.isSome_find?_iff.2 (mt h.contains_iff.1 hd)
    rw [if_neg (mt h.contains_iff.1 hd)]
    refine ⟨?_, fun x => ?_, ?_⟩
    · rw [names_concat, if_neg hd, ← h.names]
      exact Keyed.keys_insert_of_not_mem hnew
    · rw [find?_concat]
      by_cases hx : d.name = x
      · subst hx
        rw [if_pos ⟨rfl, hd⟩]
        exact Keyed.find?_insert_self ..
      · rw [if_neg fun h => hx h.1, ← h.find?_members]
        exact Keyed.find?_insert_of_ne _ _ (Ne.symm hx)
    · rw [repeats_concat, if_neg hd, List.append_nil]
      exact h.duplicates

/-- The declarations of one more sheet are held. -/
theorem addSheet (h : t.Holds ds) (sheet : EnumSheet) :
    (t.addSheet sheet).Holds (ds ++ sheet.declarations) := by
  have hfold (entries : List (String × String)) : ∀ {t : EnumTable} {ds : List Declaration},
      t.Holds ds → (entries.foldl (EnumTable.declare sheet.location) t).Holds
        (ds ++ entries.map fun m => ⟨m.1, m.2, sheet.location⟩) := by
    induction entries with
    | nil =>
      intro t ds h
      rwa [List.map_nil, List.append_nil]
    | cons m entries ih =>
      intro t ds h
      rw [List.map_cons, List.append_cons]
      exact ih (h.declare ⟨m.1, m.2, sheet.location⟩)
  exact hfold sheet.members ⟨h.names, h.find?_members, h.duplicates⟩

end Holds

/-- Declarations leave the known sheets alone. -/
theorem locations_declare (t : EnumTable) (location : Location) (m : String × String) :
    (t.declare location m).locations = t.locations := by
  unfold declare
  split <;> rfl

/-- One more sheet is known. -/
theorem locations_addSheet (t : EnumTable) (sheet : EnumSheet) :
    (t.addSheet sheet).locations = t.locations ++ [sheet.location] := by
  have hfold (entries : List (String × String)) (t : EnumTable) :
      (entries.foldl (declare sheet.location) t).locations = t.locations := by
    induction entries generalizing t with
    | nil => rfl
    | cons m entries ih => exact (ih _).trans (locations_declare ..)
  exact hfold _ _

namespace Merges

variable {t : EnumTable} {sheets : List EnumSheet}

theorem empty : Merges {} [] where
  names := rfl
  find?_members _ := rfl
  duplicates := rfl
  locations := rfl

/-- One more sheet is merged. -/
theorem addSheet (h : t.Merges sheets) (sheet : EnumSheet) :
    (t.addSheet sheet).Merges (sheets ++ [sheet]) where
  toHolds := by
    rw [List.flatMap_append, List.flatMap_singleton]
    exact h.toHolds.addSheet sheet
  locations := by
    rw [locations_addSheet, h.locations, List.map_append]
    rfl

end Merges

end EnumTable

namespace EnumTables

theorem ofSheets_concat (sheets : List EnumSheet) (sheet : EnumSheet) :
    ofSheets (sheets ++ [sheet]) = (ofSheets sheets).update sheet.table {} (·.addSheet sheet) := by
  unfold ofSheets
  rw [List.foldl_append]
  rfl

/-- The enums are those that sheets declare, in the order of their first sheets. -/
theorem keys_ofSheets (sheets : List EnumSheet) :
    (ofSheets sheets).keys = (sheets.map EnumSheet.table).eraseDups := by
  induction sheets using List.reverseRecOn with
  | nil => rfl
  | append_singleton sheets sheet ih =>
    rw [ofSheets_concat, Keyed.update, List.map_append, List.map_singleton, List.eraseDups_concat,
      ← ih]
    by_cases h : sheet.table ∈ sheets.map EnumSheet.table
    · rw [if_pos h]
      exact Keyed.keys_insert_of_mem (ih ▸ List.mem_eraseDups.2 h)
    · rw [if_neg h]
      exact Keyed.keys_insert_of_not_mem fun hmem => h (List.mem_eraseDups.1 (ih ▸ hmem))

/-- **Merging loses no declaration**: an enum holds the declarations of its sheets, whatever sheets
of other enums stand between them. -/
theorem merges_ofSheets (sheets : List EnumSheet) (enumName : String) :
    (((ofSheets sheets).find? enumName).getD {}).Merges
      (sheets.filter (·.table = enumName)) := by
  induction sheets using List.reverseRecOn with
  | nil => exact .empty
  | append_singleton sheets sheet ih =>
    rw [ofSheets_concat, List.filter_append]
    by_cases h : sheet.table = enumName
    · subst h
      rw [Keyed.find?_update_self, Option.getD_some, List.filter_cons_of_pos (by simp)]
      exact ih.addSheet sheet
    · rw [Keyed.find?_update_of_ne _ _ _ (Ne.symm h), List.filter_cons_of_neg (by simpa using h),
        List.filter_nil, List.append_nil]
      exact ih

end EnumTables

end TypedSheets
