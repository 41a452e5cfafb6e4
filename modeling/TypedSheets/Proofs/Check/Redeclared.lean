import TypedSheets.Proofs.Compilation.Rows
import TypedSheets.Proofs.Enum.Declarations
import TypedSheets.Proofs.Enum.Numbered

/-!
# Members that are declared again

The check of enums complains once about every later declaration of a member. The complaint stands on
the sheet of the first declaration and names the sheet of the later one, with one exception: in the
enum of the prototypes a prototype takes the place of the member that sheets declare, whose sheet is
forgotten then, so that the complaint stands on the sheet of the later declaration alone.

## Main definitions

* `Diagnostic.repeatsKeyOf` — the complaints about keys of a table or an enum.
* `Workbook.declarationsOf` — the declarations that sheets make for an enum.
* `Workbook.redeclared` — the complaint about a later declaration.

## Main results

* `Check.exists_enumFaults` — the complaints about an enum that are not about later declarations.
* `Check.exists_report_enumDefinitions` — what the check of enums reports about keys.
* `Workbook.declarations_kept` — no declaration is lost, and every later one is reported.
* `Workbook.calls_uncited` — the first declaration of a prototype is not named.
-/

namespace TypedSheets

open Recall Declaration

/-- Whether a diagnostic is about a key of a table, or a member of an enum, that occurs again. -/
def Diagnostic.repeatsKeyOf (table : String) (d : Diagnostic) : Bool :=
  match d.failure with
  | .duplicateKey table' _ => table' = table
  | _ => false

/-! ### Complaints about definitions -/

/-- A member that fails has an ill-formed definition or leads to a reference that is not there. -/
theorem EnumTables.Flaw.code {ts : EnumTables} {enumName x : String} {f : Failure}
    (h : ts.Flaw enumName x f) : f.code = .syntaxError ∨ f.code = .unresolvedReference := by
  cases h with
  | missing hxy hy =>
    obtain ⟨detail, hdetail⟩ := exists_detail_of_missing ts enumName _
    exact .inr (hdetail ▸ rfl)
  | cycle hxy hy path => exact .inr rfl
  | breaks h =>
    obtain ⟨detail, rfl⟩ := h.exists_detail
    exact .inl rfl

namespace Check

variable {s : Session} {w : Workbook}

/-- A definition that is not well formed is a syntax error. -/
theorem errorsIn_wellFormed (definition : String) :
    (wellFormed definition).ErrorsIn (·.code = .syntaxError) := by
  have hparse : (Token.parse definition).ErrorsIn (·.code = .syntaxError) := by
    unfold Token.parse
    cases Token.scan definition with
    | ok tokens => exact .ok tokens
    | error fault => exact .error rfl
  have hshape (tokens : List Token) : (Shape.require tokens).ErrorsIn (·.code = .syntaxError) := by
    unfold Shape.require
    cases Shape.check tokens with
    | ok _ => exact .ok _
    | error fault => exact .error rfl
  exact hparse.bind fun tokens => (hshape tokens).bind fun _ => .ok tokens

/-- Whether a complaint is about a definition: about its text or about what it refers to. -/
def AboutDefinition (d : Diagnostic) : Prop :=
  d.code = .syntaxError ∨ d.code = .unresolvedReference

theorem AboutDefinition.repeatsKeyOf_eq_false {d : Diagnostic} (h : AboutDefinition d)
    (table : String) : d.repeatsKeyOf table = false := by
  unfold Diagnostic.repeatsKeyOf
  split
  · rename_i hfailure
    unfold AboutDefinition Diagnostic.code at h
    rw [hfailure] at h
    rcases h with h | h <;> cases h
  · rfl

/-- The check of a member comes to complaints about its definition. -/
theorem exists_definitionFaults (s : Session) (enumName : String) (t : EnumTable)
    (member : String × EnumMember) :
    ∃ found, (definitionFaults s enumName t member).run.fresh = .ok found ∧
      ∀ d ∈ found, AboutDefinition d := by
  unfold definitionFaults
  cases hformed : wellFormed member.2.definition with
  | error f => exact ⟨_, rfl, List.forall_mem_singleton.2 (.inl (errorsIn_wellFormed _ f hformed))⟩
  | ok tokens =>
    dsimp only
    split
    · rw [fresh_bind_run, Session.fresh_result]
      rcases s.defs.enums.hasValue_or_flaw enumName member.1 with ⟨v, hv⟩ | ⟨f, hf, hflaw⟩
      · rw [hv]
        exact ⟨[], rfl, List.forall_mem_nil _⟩
      · rw [hf]
        exact ⟨_, rfl, List.forall_mem_singleton.2 hflaw.code⟩
    · refine ⟨_, rfl, fun d hd => ?_⟩
      obtain ⟨symbol, -, rfl⟩ := List.mem_map.1 hd
      exact .inr rfl

/-- The check of an enum comes to the complaints about later declarations and to complaints about
definitions. -/
theorem exists_enumFaults (s : Session) (e : String × EnumTable) :
    ∃ others, (∀ d ∈ others, AboutDefinition d) ∧
      (enumFaults s e).run.fresh = .ok (duplicateMembers e.1 e.2 ++ others) := by
  choose found hfound habout using exists_definitionFaults s e.1 e.2
  refine ⟨(e.2.members.entries.map found).flatten, fun d hd => ?_, ?_⟩
  · obtain ⟨ds, hds, hd⟩ := List.mem_flatten.1 hd
    obtain ⟨m, -, rfl⟩ := List.mem_map.1 hds
    exact habout m d hd
  · have hall : e.2.members.entries.mapM
        (fun m => (definitionFaults s e.1 e.2 m).run.fresh) =
          .ok (e.2.members.entries.map found) := by
      rw [Except.mapM_eq_ok_iff, List.forall₂_map_right_iff, List.forall₂_same]
      intro m _
      exact hfound m
    unfold enumFaults
    rw [fresh_bind_run, fresh_mapM_run, hall]
    rfl

/-! ### What the check of enums reports -/

/-- The complaints about later declarations are all about members of the enum. -/
theorem filter_duplicateMembers (enumName name : String) (t : EnumTable) :
    (duplicateMembers name t).filter (·.repeatsKeyOf enumName) =
      if name = enumName then duplicateMembers name t else [] := by
  have hall : ∀ d ∈ duplicateMembers name t,
      d.repeatsKeyOf enumName = decide (name = enumName) := by
    intro d hd
    obtain ⟨later, -, rfl⟩ := List.mem_map.1 hd
    rfl
  rw [List.filter_congr hall]
  split
  · rename_i h
    exact List.filter_eq_self.2 fun _ _ => decide_eq_true h
  · rename_i h
    exact List.filter_eq_nil_iff.2 fun _ _ => by simpa using h

/-- **What the check of enums reports about keys**: for each enum there is one complaint for each of
its duplicates, in order. -/
theorem exists_report_enumDefinitions (s : Session) (w : Workbook) :
    ∃ found, (enumDefinitions.report s w).fresh = .ok found ∧
      ∀ enumName, found.filter (·.repeatsKeyOf enumName) =
        (s.defs.enums.find? enumName).toList.flatMap (duplicateMembers enumName) := by
  choose others habout hothers using exists_enumFaults s
  refine ⟨(s.defs.enums.entries.map fun e => duplicateMembers e.1 e.2 ++ others e).flatten,
    fresh_report_of_items ?_, fun enumName => ?_⟩
  · show List.Forall₂ _ (s.defs.enums.entries.map (enumFaults s)) _
    rw [List.forall₂_map_left_iff, List.forall₂_map_right_iff, List.forall₂_same]
    intro e _
    exact hothers e
  · have hentry (e : String × EnumTable) :
        (duplicateMembers e.1 e.2 ++ others e).filter (·.repeatsKeyOf enumName) =
          if e.1 = enumName then duplicateMembers e.1 e.2 else [] := by
      rw [List.filter_append, filter_duplicateMembers, List.filter_eq_nil_iff.2, List.append_nil]
      intro d hd
      rw [(habout e d hd).repeatsKeyOf_eq_false]
      exact nofun
    rw [← List.flatMap_def, List.filter_flatMap]
    simp only [hentry]
    exact Keyed.flatMap_entries_of_key _ _ _

end Check

/-! ### Where members are known to be declared -/

namespace EnumTable

variable {t : EnumTable} {ds : List Declaration} {d : Declaration} {names : List String}

/-- The sheet that a member is known to be declared on. -/
def declaredAt? (t : EnumTable) (name : String) : Option Location :=
  (t.members.find? name).bind (·.location)

/-- A member is known to be declared where its name is declared first. -/
theorem Holds.declaredAt?_eq (h : t.Holds ds) (hd : d ∈ ds) :
    t.declaredAt? d.name = some (first ds d).location := by
  rw [declaredAt?, h.find?_members, find?_eq_first hd]
  rfl

/-- A member that is numbered is not known to be declared any more. -/
theorem declaredAt?_number (hnames : names.Nodup) (n : Nat) (name : String) :
    (t.number n names).declaredAt? name = if name ∈ names then none else t.declaredAt? name := by
  unfold declaredAt?
  split
  · rename_i hmem
    obtain ⟨i, hi⟩ := List.getElem?_of_mem hmem
    rw [find?_number hnames hi]
    rfl
  · rename_i hmem
    rw [find?_number_of_not_mem hmem]

/-- Numbering members leaves the duplicates alone. -/
theorem duplicates_number (t : EnumTable) (n : Nat) (names : List String) :
    (t.number n names).duplicates = t.duplicates := by
  induction names generalizing t n with
  | nil => rfl
  | cons name names ih =>
    rw [number]
    exact ih _ _

end EnumTable

/-- The complaints about later declarations, from what is known about the first ones. -/
theorem Check.duplicateMembers_eq {t : EnumTable} {ds : List Declaration} (enumName : String)
    (h : t.duplicates = (repeats ds).map fun d => (d.name, some d.location)) :
    duplicateMembers enumName t = (repeats ds).map fun d =>
      .duplicateKey enumName d.name ((t.declaredAt? d.name).toList ++ [d.location]) := by
  rw [duplicateMembers, h, List.map_map]
  rfl

/-! ### The enums of a workbook -/

namespace Workbook

variable {w : Workbook} {settings : Settings} {s : Session} {enumName : String}

/-- The declarations that the sheets of an enum make, in order. -/
def declarationsOf (w : Workbook) (enumName : String) : List Declaration :=
  (w.enums.filter (·.table = enumName)).flatMap EnumSheet.declarations

/-- The complaint about a later declaration: it stands on the sheet of the first one and names that
of the later one. A prototype makes the sheet of the first one be forgotten. -/
def redeclared (w : Workbook) (settings : Settings) (enumName : String) (d : Declaration) :
    Diagnostic :=
  if enumName = settings.callEnum ∧ d.name ∈ w.prototypes.keys then
    .duplicateKey enumName d.name [d.location]
  else
    .duplicateKey enumName d.name [(first (w.declarationsOf enumName) d).location, d.location]

/-- The complaints about the later declarations for an enum. -/
theorem flatMap_duplicateMembers (w : Workbook) (settings : Settings) (enumName : String) :
    ((Session.ofWorkbook settings w).defs.enums.find? enumName).toList.flatMap
        (Check.duplicateMembers enumName) =
      (repeats (w.declarationsOf enumName)).map (w.redeclared settings enumName) := by
  have hmerges := EnumTables.merges_ofSheets w.enums enumName
  have hfirst {d : Declaration} (hd : d ∈ repeats (w.declarationsOf enumName)) :=
    hmerges.declaredAt?_eq (mem_of_mem_repeats hd)
  by_cases hcall : enumName = settings.callEnum
  · have hfind : (Session.ofWorkbook settings w).defs.enums.find? enumName = some
        ((((EnumTables.ofSheets w.enums).find? enumName).getD {}).number 0 w.prototypes.keys) := by
      rw [hcall]
      exact EnumTables.find?_declareNumbered _ _ _
    rw [hfind, Option.toList_some, List.flatMap_singleton,
      Check.duplicateMembers_eq _ ((EnumTable.duplicates_number ..).trans hmerges.duplicates)]
    refine List.map_congr_left fun d hd => ?_
    rw [EnumTable.declaredAt?_number w.prototypes.nodup_keys, redeclared]
    by_cases hmem : d.name ∈ w.prototypes.keys
    · rw [if_pos hmem, if_pos ⟨hcall, hmem⟩]
      rfl
    · rw [if_neg hmem, if_neg fun h => hmem h.2, hfirst hd]
      rfl
  · have hfind : (Session.ofWorkbook settings w).defs.enums.find? enumName =
        (EnumTables.ofSheets w.enums).find? enumName :=
      Keyed.find?_update_of_ne _ _ _ hcall
    have hplain : ((EnumTables.ofSheets w.enums).find? enumName).toList.flatMap
        (Check.duplicateMembers enumName) = Check.duplicateMembers enumName
          (((EnumTables.ofSheets w.enums).find? enumName).getD {}) := by
      cases (EnumTables.ofSheets w.enums).find? enumName with
      | none => rfl
      | some t => exact List.flatMap_singleton ..
    rw [hfind, hplain, Check.duplicateMembers_eq _ hmerges.duplicates]
    refine List.map_congr_left fun d hd => ?_
    rw [redeclared, if_neg fun h => hcall h.1, hfirst hd]
    rfl

/-- A complaint about a later declaration names both sheets unless a prototype has the name. -/
theorem redeclared_eq_iff {d : Declaration} :
    w.redeclared settings enumName d = .duplicateKey enumName d.name
        [(first (w.declarationsOf enumName) d).location, d.location] ↔
      (enumName = settings.callEnum → d.name ∉ w.prototypes.keys) := by
  unfold redeclared
  split
  · rename_i h
    exact iff_of_false (by simp [Diagnostic.duplicateKey]) fun hno => hno h.1 h.2
  · rename_i h
    exact iff_of_true rfl fun hcall hmem => h ⟨hcall, hmem⟩

/-- What is prepared has the enums of the workbook. -/
theorem Prepares.enums_eq {workers : Nat} (h : w.Prepares settings workers s) :
    s.defs.enums = (Session.ofWorkbook settings w).defs.enums := by
  obtain ⟨s₀, data, hs₀, -, rfl⟩ := h.exists_resolved
  obtain ⟨schemas, -, rfl⟩ := resolved_ok hs₀
  rw [foldl_withSchema]

/-- **Merging sheets of enums loses no declaration.** The enums that sheets declare are kept in the
order of their first sheets. The members of each are the names that are declared for it, in the
order of their first declarations, and each is defined by its first declaration; the duplicates are
the later declarations in order, each with its own sheet, and the sheets of the enum are known in
order. So members and duplicates are as many as the declarations.

Whatever is remembered, with any number of workers, the check of the enums of the workbook comes to
its end, and complains exactly once about each later declaration for an enum, in order. The
complaints name the sheets of the first and of the later declaration just if none of the names is a
prototype's in the enum of the prototypes. -/
theorem declarations_kept (hs : s.defs.enums = (Session.ofWorkbook settings w).defs.enums) :
    (EnumTables.ofSheets w.enums).keys = (w.enums.map EnumSheet.table).eraseDups ∧
    (∀ enumName, ∀ t ∈ (EnumTables.ofSheets w.enums).find? enumName,
      t.Merges (w.enums.filter (·.table = enumName)) ∧
      t.members.size + t.duplicates.length = (w.declarationsOf enumName).length) ∧
    ∃ found : List Diagnostic,
      (∀ workers m, Memory.Meets m s.exact →
        (∃ m', Check.enumDefinitions.Reports s w workers m (.ok found) m') ∧
        ∀ r m', Check.enumDefinitions.Reports s w workers m r m' → r = .ok found) ∧
      ∀ enumName,
        found.filter (·.repeatsKeyOf enumName) =
          (repeats (w.declarationsOf enumName)).map (w.redeclared settings enumName) ∧
        (found.filter (·.repeatsKeyOf enumName) =
            ((repeats (w.declarationsOf enumName)).map fun d => .duplicateKey enumName d.name
              [(first (w.declarationsOf enumName) d).location, d.location]) ↔
          (enumName = settings.callEnum → ∀ d ∈ repeats (w.declarationsOf enumName),
            d.name ∉ w.prototypes.keys)) := by
  obtain ⟨found, hfound, hkeys⟩ := Check.exists_report_enumDefinitions s w
  refine ⟨EnumTables.keys_ofSheets w.enums, fun enumName t ht => ?_, found,
    fun workers m hm => ?_, fun enumName => ?_⟩
  · have hmerges := EnumTables.merges_ofSheets w.enums enumName
    rw [Option.mem_def.1 ht, Option.getD_some] at hmerges
    exact ⟨hmerges, hmerges.size_add_length⟩
  · have hreports {r m'} (h : Check.enumDefinitions.Reports s w workers m r m') : r = .ok found :=
      (h.fresh (Check.plain_examine (by simp [Check.all])) hm).1.trans hfound
    obtain ⟨r, m', hruns⟩ := Pool.exists_runs Check.enumDefinitions.name false workers
      (fun item => Outcome.ofAttempt (Check.examine item)) (Check.enumDefinitions.items s w) m
    have hreport : Check.enumDefinitions.Reports s w workers m (Check.found r) m' :=
      ⟨r, hruns, rfl⟩
    exact ⟨⟨m', hreports hreport ▸ hreport⟩, fun r m' => hreports⟩
  · have hall : found.filter (·.repeatsKeyOf enumName) =
        (repeats (w.declarationsOf enumName)).map (w.redeclared settings enumName) := by
      rw [hkeys, hs, flatMap_duplicateMembers]
    refine ⟨hall, ?_⟩
    rw [hall, List.map_inj_left]
    simp only [redeclared_eq_iff]
    exact ⟨fun h hcall d hd => h d hd hcall, fun h d hd hcall => h hcall d hd⟩

/-- Ranks that are declared on two sheets, with the sides between them. -/
def ranks : Workbook where
  enums := [
    { location := ⟨"a.xlsx", "Ranks", none⟩, table := "Rank",
      members := [("Low", "1"), ("High", " 2 "), ("Low", "3")] },
    { location := ⟨"b.xlsx", "Sides", none⟩, table := "Side", members := [("High", "0")] },
    { location := ⟨"c.xlsx", "Ranks", none⟩, table := "Rank",
      members := [("High", "Low|4"), ("Top", "8")] }]

/-- The lowest rank is declared again on its own sheet, and the highest on the second one. -/
theorem ranks_declarations_kept : ∃ s, ranks.Prepares {} 2 s ∧
    (EnumTables.ofSheets ranks.enums).keys = ["Rank", "Side"] ∧
    (∃ t, (EnumTables.ofSheets ranks.enums).find? "Rank" = some t ∧
      t.names = ["Low", "High", "Top"] ∧
      t.members.find? "High" = some ⟨"2", some ⟨"a.xlsx", "Ranks", none⟩⟩ ∧
      t.duplicates = [("Low", some ⟨"a.xlsx", "Ranks", none⟩),
        ("High", some ⟨"c.xlsx", "Ranks", none⟩)] ∧
      t.locations = [⟨"a.xlsx", "Ranks", none⟩, ⟨"c.xlsx", "Ranks", none⟩] ∧
      t.members.size + t.duplicates.length = 5) ∧
    ∃ found m', Check.enumDefinitions.Reports s ranks 2 {} (.ok found) m' ∧
      found.filter (·.repeatsKeyOf "Rank") =
        [.duplicateKey "Rank" "Low" [⟨"a.xlsx", "Ranks", none⟩, ⟨"a.xlsx", "Ranks", none⟩],
          .duplicateKey "Rank" "High" [⟨"a.xlsx", "Ranks", none⟩, ⟨"c.xlsx", "Ranks", none⟩]] := by
  obtain ⟨s, hs, -⟩ := ranks.exists_prepares {} (p := fun _ => true) (by decide +kernel) 2
  obtain ⟨hkeys, htables, found, hreports, hfound⟩ := declarations_kept hs.enums_eq
  have hsome : ((EnumTables.ofSheets ranks.enums).find? "Rank").isSome = true := by decide +kernel
  obtain ⟨t, ht⟩ := Option.isSome_iff_exists.1 hsome
  obtain ⟨hmerges, hcount⟩ := htables "Rank" t ht
  obtain ⟨m', hreport⟩ := (hreports 2 {} (Memory.meets_empty _)).1
  refine ⟨s, hs, hkeys.trans (by decide +kernel), ⟨t, ht, hmerges.names.trans (by decide +kernel),
    (hmerges.find?_members "High").trans (by decide +kernel),
    hmerges.duplicates.trans (by decide +kernel), hmerges.locations.trans (by decide +kernel),
    hcount.trans (by decide +kernel)⟩, found, m', hreport, ?_⟩
  exact (hfound "Rank").1.trans (by decide +kernel)

/-- A prototype whose name is declared on two sheets for the enum of the prototypes. -/
def sharedCalls : Workbook where
  enums := [
    { location := ⟨"a.xlsx", "Calls", none⟩, table := "DslFunctionType",
      members := [("Lerp", "0")] },
    { location := ⟨"b.xlsx", "Calls", none⟩, table := "DslFunctionType",
      members := [("Lerp", "1")] }]
  prototypes := Prototypes.declare .empty "Lerp" [{ name := "t", type := "float" }]

/-- **The first declaration is not named** when a prototype has taken its place: the complaint about
the later one names the sheet of that alone. -/
theorem calls_uncited :
    repeats (sharedCalls.declarationsOf "DslFunctionType") =
      [⟨"Lerp", "1", ⟨"b.xlsx", "Calls", none⟩⟩] ∧
    first (sharedCalls.declarationsOf "DslFunctionType")
      ⟨"Lerp", "1", ⟨"b.xlsx", "Calls", none⟩⟩ = ⟨"Lerp", "0", ⟨"a.xlsx", "Calls", none⟩⟩ ∧
    ∃ s, sharedCalls.Prepares {} 1 s ∧
      ((Check.enumDefinitions.report s sharedCalls).run {}).1 =
        .ok [.duplicateKey "DslFunctionType" "Lerp" [⟨"b.xlsx", "Calls", none⟩]] := by
  obtain ⟨s, hs, hp⟩ := sharedCalls.exists_prepares {} (p := fun s =>
    decide ((Check.enumDefinitions.report s sharedCalls).runOn [] =
      .ok [.duplicateKey "DslFunctionType" "Lerp" [⟨"b.xlsx", "Calls", none⟩]]))
    (by decide +kernel) 1
  refine ⟨by decide +kernel, by decide +kernel, s, hs, ?_⟩
  rw [fst_run_empty]
  exact of_decide_eq_true hp

end Workbook

end TypedSheets
