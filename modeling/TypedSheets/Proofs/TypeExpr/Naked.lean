import TypedSheets.Proofs.TypeExpr.Inner

/-!
# Where stripping stops

Modifiers are stripped off a text one after the other, for whatever set of modifiers and whatever
text, be it an annotation or not. A step may bring out a modifier that was hidden before, as when
the nullable mark behind a group key is moved into it, but it always leaves a shorter text, and a
trimmed one. So stripping stops after as many steps as there are characters at most, at a text that
it leaves as it is.

## Main definitions

* `Strips` — stripping as a run of steps, with their number.
* `Unmarked` — no modifier of a set stands outermost.

## Main results

* `strips_nakeFrom` — stripping is a run of no more steps than there are characters.
* `Strips.stops`, `Strips.trim` — what holds of the text that a run stops at.
* `nake_stops` — stripping stops, for good, at a trimmed text without modifiers to strip.
-/

namespace TypedSheets

variable {mask : Modifiers} {text next naked : List Char} {n : Nat}

/-! ### One step -/

/-- No modifier of a set stands outermost in a text. -/
structure Unmarked (mask : Modifiers) (text : List Char) : Prop where
  /-- No mark of a primary key in front. -/
  primary : mask.primary = true → text.head? ≠ some '*'
  /-- No parentheses around the text, be it with or without a nullable mark behind them. -/
  group : mask.group = true → splitGroupKey text = none
  /-- No strong mark in front. -/
  strong : mask.strong = true → text.head? ≠ some '!'
  /-- No sequence mark in front. -/
  sequence : mask.sequence = true → text.head? ≠ some '~'
  /-- No mark of a relation in front. -/
  relation : mask.relation = true → text.head? ≠ some '$'
  /-- No nullable mark at the end. -/
  nullable : mask.nullable = true → text.getLast? ≠ some '?'

theorem nakeMark_eq_none_iff {mark : Char} :
    nakeMark mark text = none ↔ text.head? ≠ some mark := by
  cases text with
  | nil => exact iff_of_true rfl nofun
  | cons c rest =>
    by_cases h : c = mark
    · subst h
      rw [TypeExpr.nakeMark_self]
      simp
    · rw [TypeExpr.nakeMark_of_ne h]
      simpa using h

theorem nakeNullable_eq_none_iff : nakeNullable text = none ↔ text.getLast? ≠ some '?' := by
  rw [nakeNullable, Option.map_eq_none_iff, Text.stripSuffix, ite_eq_right_iff]
  exact ⟨fun h hlast => Option.some_ne_none _ (h hlast), fun h hlast => absurd hlast h⟩

/-- There is no step if and only if no modifier stands outermost. -/
theorem nakeOnce_eq_none_iff : nakeOnce mask text = none ↔ Unmarked mask text := by
  simp only [nakeOnce, nakeSteps, List.findSome?_eq_none_iff, List.forall_mem_cons,
    ite_eq_right_iff, nakeMark_eq_none_iff, nakeGroup, Option.map_eq_none_iff,
    nakeNullable_eq_none_iff]
  constructor
  · rintro ⟨hprimary, hgroup, hstrong, hsequence, hrelation, hnullable, -⟩
    exact ⟨hprimary, hgroup, hstrong, hsequence, hrelation, hnullable⟩
  · rintro ⟨hprimary, hgroup, hstrong, hsequence, hrelation, hnullable⟩
    exact ⟨hprimary, hgroup, hstrong, hsequence, hrelation, hnullable, List.forall_mem_nil _⟩

theorem trim_nakeGroup (h : nakeGroup text = some next) : Text.trim next = next := by
  obtain ⟨⟨inside, nullable⟩, -, hnext⟩ := Option.map_eq_some_iff.1 h
  subst hnext
  cases nullable with
  | false => exact Text.trim_trim inside
  | true => exact Text.trim_concat_of_trim (by decide) (Text.trim_trim inside)

/-- A step leaves a trimmed text. -/
theorem trim_nakeOnce (h : nakeOnce mask text = some next) : Text.trim next = next := by
  have hmark {mark : Char} (h : nakeMark mark text = some next) : Text.trim next = next := by
    obtain ⟨rest, -, rfl⟩ := Option.map_eq_some_iff.1 h
    exact Text.trim_trim rest
  have hnullable (h : nakeNullable text = some next) : Text.trim next = next := by
    obtain ⟨rest, -, rfl⟩ := Option.map_eq_some_iff.1 h
    exact Text.trim_trim rest
  obtain ⟨⟨wanted, step⟩, hmem, hstep⟩ := List.exists_of_findSome?_eq_some h
  replace hstep := (Option.ite_none_right_eq_some.1 hstep).2
  simp only [nakeSteps, List.mem_cons, Prod.mk.injEq, List.not_mem_nil, or_false] at hmem
  rcases hmem with ⟨-, rfl⟩ | ⟨-, rfl⟩ | ⟨-, rfl⟩ | ⟨-, rfl⟩ | ⟨-, rfl⟩ | ⟨-, rfl⟩
  · exact hmark hstep
  · exact trim_nakeGroup hstep
  · exact hmark hstep
  · exact hmark hstep
  · exact hmark hstep
  · exact hnullable hstep

/-! ### Runs -/

/-- A text is stripped down to another in a number of steps. The last step may be one that would
leave nothing; it is made in vain. -/
inductive Strips (mask : Modifiers) : Nat → List Char → List Char → Prop
  | stop {text : List Char} (h : nakeOnce mask text = none) : Strips mask 0 text text
  | vain {text : List Char} (h : nakeOnce mask text = some []) : Strips mask 1 text text
  | step {n : Nat} {text next naked : List Char} (h : nakeOnce mask text = some next)
      (hne : next ≠ []) (hrest : Strips mask n next naked) : Strips mask (n + 1) text naked

/-- **Stripping is a run of steps**, of no more than there are characters. -/
theorem strips_nakeFrom (mask : Modifiers) (text : List Char) :
    ∃ n ≤ text.length, Strips mask n text (nakeFrom mask text) := by
  fun_induction nakeFrom mask text with
  | case1 text next h hlt hempty =>
    rw [List.isEmpty_iff.1 hempty] at h
    exact ⟨1, by omega, .vain h⟩
  | case2 text next h hlt hempty ih =>
    obtain ⟨n, hn, hrun⟩ := ih
    exact ⟨n + 1, by omega, .step h (by simpa using hempty) hrun⟩
  | case3 text h => exact ⟨0, Nat.zero_le _, .stop h⟩

/-- Where a run stops, there is nothing to strip, or the next step would leave nothing. -/
theorem Strips.stops (h : Strips mask n text naked) :
    nakeOnce mask naked = none ∨ nakeOnce mask naked = some [] := by
  induction h with
  | stop h => exact .inl h
  | vain h => exact .inr h
  | step _ _ _ ih => exact ih

/-- A run keeps a text trimmed. -/
theorem Strips.trim (h : Strips mask n text naked) (htrim : Text.trim text = text) :
    Text.trim naked = naked := by
  induction h with
  | stop _ => exact htrim
  | vain _ => exact htrim
  | step h _ _ ih => exact ih (trim_nakeOnce h)

/-- Where nothing is stripped, stripping does nothing. -/
theorem nakeFrom_of_stops (h : nakeOnce mask text = none ∨ nakeOnce mask text = some []) :
    nakeFrom mask text = text := by
  rcases h with h | h
  · exact TypeExpr.nakeFrom_of_none h
  · rw [nakeFrom]
    split
    · rename_i next hnext
      cases h.symm.trans hnext
      rfl
    · rfl

/-- **Stripping stops, and for good.** For every set of modifiers and every text, stripping is a run
of no more steps than the text has characters, and to strip what is left does nothing. What is left
has no blanks at its ends, and either none of the modifiers stands outermost in it, or to strip the
next one would leave nothing. -/
theorem nake_stops (mask : Modifiers) (text : String) :
    (∃ n ≤ text.length, Strips mask n (Text.trim text.toList) (nake mask text).toList) ∧
      nake mask (nake mask text) = nake mask text ∧
      ((∀ c ∈ (nake mask text).toList.head?, Text.isBlank c = false) ∧
        ∀ c ∈ (nake mask text).toList.getLast?, Text.isBlank c = false) ∧
      (Unmarked mask (nake mask text).toList ∨
        nakeOnce mask (nake mask text).toList = some []) := by
  obtain ⟨n, hn, hrun⟩ := strips_nakeFrom mask (Text.trim text.toList)
  have hlist : (nake mask text).toList = nakeFrom mask (Text.trim text.toList) :=
    String.toList_ofList
  have htrim := hrun.trim (Text.trim_trim text.toList)
  rw [← hlist] at hrun htrim
  refine ⟨⟨n, hn.trans ?_, hrun⟩, ?_, Text.ends_of_trim htrim,
    hrun.stops.imp_left nakeOnce_eq_none_iff.1⟩
  · rw [← String.length_toList]
    exact Text.length_trim_le _
  · rw [nake, htrim, nakeFrom_of_stops hrun.stops, String.ofList_toList]

/-- A group key of a key, with a nullable mark behind its parentheses: stripping it moves the mark
behind the key, and it is stripped last. -/
theorem nake_stops_group :
    let naked := (nake .all " (*Item)? ").toList
    naked = "Item".toList ∧ 'I' ∈ naked.head? ∧ Text.isBlank 'I' = false ∧
      (∃ n ≤ 10, Strips .all n "(*Item)?".toList naked) ∧ Unmarked .all naked := by
  intro naked
  obtain ⟨⟨n, hn, hrun⟩, -, ⟨hfirst, -⟩, hstop⟩ := nake_stops .all " (*Item)? "
  have hnaked : naked = "Item".toList := by decide +kernel
  have hhead : 'I' ∈ naked.head? := by
    rw [hnaked]
    rfl
  refine ⟨hnaked, hhead, hfirst 'I' hhead, ⟨n, hn, hrun⟩, hstop.resolve_right ?_⟩
  rw [show (nake .all " (*Item)? ").toList = "Item".toList from hnaked]
  decide

end TypedSheets
