import TypedSheets.Proofs.Compilation.Merging

/-!
# Which sheets merge

Sheets are compared column by column, in the order of the names of the columns. Columns of one name
stay in the order in which their sheet lists them. A name may be repeated, for the two tiers of a
sheet become tables of their own, and so two sheets with the same headers merge only if they agree
on the order of the headers of each name.

## Main definitions

* `Sheet.headersNamed` — the headers of a name.
* `Sheet.SameColumns` — whether two sheets have the same headers of each name, in the same order.
* `Sheet.OneHeaderPerName` — whether no name has two different headers.

## Main results

* `Sheet.mergesWith_iff` — the sheets that merge.
* `Sheet.sameColumns_of_perm_iff` — when all sheets with the same headers merge.
* `Workbook.mergeConflicts_perm_iff` — when the headers alone decide.
* `Workbook.groupFaults_merging` — the complaints about sheets that do not merge.
-/

namespace TypedSheets

namespace Sheet

variable {a b c : Sheet}

/-- The headers of the columns with a name, in order. -/
def headersNamed (s : Sheet) (name : String) : List (String × String × Scope × Bool) :=
  s.headers.filter fun x => x.1 = name

/-- Whether two sheets have the same headers of each name, in the same order. -/
def SameColumns (a b : Sheet) : Prop :=
  ∀ name, a.headersNamed name = b.headersNamed name

/-- Whether columns with one name have one header. -/
def OneHeaderPerName (s : Sheet) : Prop :=
  ∀ x ∈ s.headers, ∀ y ∈ s.headers, x.1 = y.1 → x = y

theorem SameColumns.symm (h : a.SameColumns b) : b.SameColumns a :=
  fun name => (h name).symm

theorem SameColumns.trans (h : a.SameColumns b) (h' : b.SameColumns c) : a.SameColumns c :=
  fun name => (h name).trans (h' name)

/-! ### Comparing sheets -/

/-- The headers in the order of their names. -/
theorem map_header_sortedColumns (s : Sheet) :
    s.sortedColumns.map SheetColumn.header = sortBy (fun x y => x.1 ≤ y.1) s.headers := by
  rw [headers, sortBy_map]
  rfl

/-- Sheets merge if their headers, in the order of their names, are the same. -/
theorem mergesWith_iff_map_header : a.mergesWith b = true ↔
    a.sortedColumns.map SheetColumn.header = b.sortedColumns.map SheetColumn.header := by
  have hlength (s : Sheet) : s.sortedColumns.length = s.columns.length :=
    (sortBy_perm _ s.columns).length_eq
  rw [mergesWith, ← hlength, ← hlength]
  generalize a.sortedColumns = l, b.sortedColumns = m
  induction l generalizing m with
  | nil => cases m <;> simp
  | cons x l ih =>
    cases m with
    | nil => simp
    | cons y m =>
      have hrest := ih m
      simp only [Bool.and_eq_true, beq_iff_eq] at hrest
      simp only [Bool.and_eq_true, beq_iff_eq, List.length_cons, List.zip_cons_cons, List.all_cons,
        List.map_cons, List.cons.injEq, SheetColumn.sameHeader_iff, ← hrest,
        Nat.add_right_cancel_iff]
      exact and_left_comm

/-- **The sheets that merge** have the same headers of each name, in the same order. -/
theorem mergesWith_iff : a.mergesWith b = true ↔ a.SameColumns b := by
  rw [mergesWith_iff_map_header, map_header_sortedColumns, map_header_sortedColumns]
  refine sortBy_eq_iff (fun x y : String => decide (x ≤ y)) (fun x y => ?_)
    (fun x y hxy hyx => ?_) (fun x y z hxy hyz => ?_)
  · simpa using String.le_total x y
  · exact String.le_antisymm (of_decide_eq_true hxy) (of_decide_eq_true hyx)
  · exact decide_eq_true (String.le_trans (of_decide_eq_true hxy) (of_decide_eq_true hyz))

instance : DecidableRel SameColumns :=
  fun _ _ => decidable_of_iff _ mergesWith_iff

/-! ### Headers in any order -/

/-- Sheets that merge have the same headers. -/
theorem SameColumns.perm (h : a.SameColumns b) : a.headers.Perm b.headers := by
  have hsorted := mergesWith_iff_map_header.1 (mergesWith_iff.2 h)
  rw [map_header_sortedColumns, map_header_sortedColumns] at hsorted
  exact (sortBy_perm _ a.headers).symm.trans (hsorted ▸ sortBy_perm _ b.headers)

/-- If columns with one name have one header, a sheet with the same headers merges. -/
theorem OneHeaderPerName.sameColumns (hone : b.OneHeaderPerName)
    (hperm : a.headers.Perm b.headers) : a.SameColumns b := by
  intro name
  have hnamed : (a.headersNamed name).Perm (b.headersNamed name) := hperm.filter _
  cases hfirst : b.headersNamed name with
  | nil => rw [hfirst] at hnamed; exact hnamed.eq_nil
  | cons x rest =>
    have hx : x ∈ b.headersNamed name := hfirst ▸ List.mem_cons_self
    have hsame : ∀ y ∈ b.headersNamed name, y = x := by
      intro y hy
      obtain ⟨hyb, hyname⟩ := List.mem_filter.1 hy
      obtain ⟨hxb, hxname⟩ := List.mem_filter.1 hx
      exact hone y hyb x hxb
        ((of_decide_eq_true hyname).trans (of_decide_eq_true hxname).symm)
    rw [← hfirst, List.eq_replicate_of_mem hsame,
      List.eq_replicate_of_mem fun y hy => hsame y (hnamed.mem_iff.1 hy), hnamed.length_eq]

/-- **When the order of columns plays no part.** All sheets with the headers of a sheet, in whatever
order, merge with it exactly if its columns with one name have one header. -/
theorem sameColumns_of_perm_iff : (∀ s : Sheet, s.headers.Perm a.headers → s.SameColumns a) ↔
    a.OneHeaderPerName := by
  refine ⟨fun h => ?_, fun hone s => hone.sameColumns⟩
  -- a column that is moved to the front has the first header of its name
  have hfront : ∀ x ∈ a.headers, (a.headersNamed x.1).head? = some x := by
    intro x hx
    obtain ⟨column, hcolumn, rfl⟩ := List.mem_map.1 hx
    let moved : Sheet := { a with columns := column :: a.columns.erase column }
    have hmoved : moved.SameColumns a :=
      h moved ((List.perm_cons_erase hcolumn).symm.map SheetColumn.header)
    rw [← hmoved]
    simp [headersNamed, headers, moved]
  intro x hx y hy hname
  have hhead := hfront x hx
  rw [hname, hfront y hy] at hhead
  exact (Option.some.inj hhead).symm

end Sheet

namespace Workbook

/-! ### The complaints -/

/-- The sheets that do not merge with the first are those with other columns. -/
theorem mergeConflicts_eq (first : Sheet) (others : List Sheet) :
    mergeConflicts first others =
      (others.filter fun s => ¬ s.SameColumns first).map (mergeConflict first) := by
  rw [mergeConflicts]
  congr 2
  funext s
  simp only [← Sheet.mergesWith_iff, Bool.not_eq_true, Bool.decide_eq_false]

/-- Sheets whose columns are rearranged, those with one name aside, merge as before. -/
theorem mergeConflicts_rearranged {first first' : Sheet} {others others' : List Sheet}
    (h : List.Forall₂ (fun s s' => s'.location = s.location ∧ s'.SameColumns s)
      (first :: others) (first' :: others')) :
    mergeConflicts first' others' = mergeConflicts first others := by
  obtain ⟨⟨hlocation, hfirst⟩, hothers⟩ := List.forall₂_cons.1 h
  rw [mergeConflicts_eq, mergeConflicts_eq]
  clear h
  induction hothers with
  | nil => rfl
  | @cons s s' others others' hs _ ih =>
    have hiff : s'.SameColumns first' ↔ s.SameColumns first :=
      ⟨fun h => hs.2.symm.trans (h.trans hfirst), fun h => hs.2.trans (h.trans hfirst.symm)⟩
    have hconflict : mergeConflict first' s' = mergeConflict first s := by
      rw [mergeConflict, mergeConflict, hlocation, hs.1]
    rw [List.filter_cons, List.filter_cons]
    simp only [hiff]
    split
    · rw [List.map_cons, List.map_cons, hconflict, ih]
    · exact ih

/-- The complaints are about the sheets with other headers, for all lists of sheets, exactly if
columns of the first sheet with one name have one header. -/
theorem mergeConflicts_perm_iff (first : Sheet) :
    (∀ others, mergeConflicts first others =
        (others.filter fun s => ¬ s.headers.Perm first.headers).map (mergeConflict first)) ↔
      first.OneHeaderPerName := by
  rw [← Sheet.sameColumns_of_perm_iff]
  constructor
  · intro h s hperm
    have hnone : mergeConflicts first [s] = [] := by simp [h, hperm]
    simpa [mergeConflicts_eq] using hnone
  · intro h others
    have hiff (s : Sheet) : s.SameColumns first ↔ s.headers.Perm first.headers :=
      ⟨Sheet.SameColumns.perm, h s⟩
    rw [mergeConflicts_eq]
    simp only [hiff]

/-- **Merging.** Among the complaints about the sheets of a table there is one for each sheet that
has, of some name, other headers than the first sheet or the same in another order. All other sheets
have the headers of the first. That the headers alone decide, in whatever order a sheet lists its
columns, is true for all other sheets exactly if columns of the first with one name have one header.
The complaints stay the same if the columns of any sheets are rearranged and those with one name
keep their order. -/
theorem groupFaults_merging (w : Workbook) (table : String) (first : Sheet) (others : List Sheet) :
    w.groupFaults table (first :: others) =
        baseConflicts table (first :: others) ++
          (others.filter fun s => ¬ s.SameColumns first).map (mergeConflict first) ++
          w.inheritanceConflicts first ∧
      (∀ s : Sheet, s.SameColumns first → s.headers.Perm first.headers) ∧
      ((∀ others, mergeConflicts first others =
          (others.filter fun s => ¬ s.headers.Perm first.headers).map (mergeConflict first)) ↔
        first.OneHeaderPerName) ∧
      ∀ first' others', List.Forall₂ (fun s s' => s'.location = s.location ∧ s'.SameColumns s)
          (first :: others) (first' :: others') →
        mergeConflicts first' others' = mergeConflicts first others := by
  refine ⟨?_, fun s => Sheet.SameColumns.perm, mergeConflicts_perm_iff first,
    fun first' others' => mergeConflicts_rearranged⟩
  rw [groupFaults, mergeConflicts_eq]

/-- A sheet of zones. The bold tier has keys, and the normal tier has as well. -/
def zoneSheet (name : String) (boldFirst : Bool) : Sheet where
  location := ⟨"zone.xlsx", name, none⟩
  table := "Zone"
  based := none
  group := none
  columns :=
    let bold : SheetColumn := ⟨"Id", "*int", .common, true, .ofList [(1, .text "1")]⟩
    let normal : SheetColumn := ⟨"Id", "*int", .common, false, .ofList [(2, .text "10")]⟩
    if boldFirst then [bold, normal] else [normal, bold]

/-- Sheets that have the same headers do not merge, if they list the keys of the two tiers in
different orders. If the columns of one of them are put in the other order, they do. -/
theorem zones_refused :
    let north := zoneSheet "North" true
    let south := zoneSheet "South" false
    let w : Workbook := { sheets := [north, south] }
    south.headers.Perm north.headers ∧
      w.groupFaults "Zone" [north, south] = [mergeConflict north south] ∧
      (zoneSheet "South" true).columns.Perm south.columns ∧
      w.groupFaults "Zone" [north, zoneSheet "South" true] = [] := by
  decide +kernel

end Workbook

end TypedSheets
