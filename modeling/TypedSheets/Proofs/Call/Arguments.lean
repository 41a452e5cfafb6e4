import TypedSheets.Call.Parser
import TypedSheets.Proofs.Text.Pieces
import TypedSheets.Proofs.Text.Splitting

/-!
# Calls and their arguments

What makes a text a call, and what its arguments are: a word, and one line in parentheses, from
which the elements between commas are taken. So the arguments stand in the text of the call.

## Main definitions

* `Call.commas` — the commas that separate arguments.

## Main results

* `Call.arguments_eq` — the arguments are the elements between commas.
* `Call.frame?_eq_some_iff` — what the name and the parentheses of a call are.
* `Call.parse_eq_ok_iff` — which texts are calls, and what call a text is.
* `Call.infix_args`, `Call.length_arg_lt` — the arguments of a call stand in its text and are
  shorter.
-/

namespace TypedSheets.Call

/-! ### Arguments -/

/-- The commas that separate arguments: where as many parentheses are closed as opened. -/
def commas : Separation where
  marks c := c = ','
  level d := d = 0
  marks_open := rfl
  marks_close := rfl
  level_zero := rfl
  level_pos d h := decide_eq_false (by omega)

/-- The arguments of a call are the elements between commas. -/
theorem arguments_eq (inside : List Char) :
    arguments inside = (commas.elements 0 inside).map String.ofList := by
  have hsplit : splitArguments [] 0 inside = commas.pieces 0 inside :=
    Separation.eq_pieces_of_step (fun _ _ => rfl) (fun _ _ _ _ => rfl) 0 inside
  rw [arguments, hsplit]
  rfl

/-! ### The name and the parentheses -/

/-- **The frame of a call**: a word, and one line in parentheses. -/
theorem frame?_eq_some_iff {text name inside : List Char} :
    frame? text = some (name, inside) ↔
      Text.isWord name = true ∧ '\n' ∉ inside ∧ text = name ++ '(' :: inside ++ [')'] := by
  constructor
  · intro h
    unfold frame? at h
    split at h
    · rename_i rest hrest
      split at h
      · rename_i inside' hinside
        dsimp only at h
        split at h
        · cases h
        · rename_i hline
          cases h
          rw [Bool.or_eq_true, not_or, Bool.not_eq_true, Bool.not_eq_true] at hline
          obtain ⟨hname, hline⟩ := hline
          refine ⟨?_, by simpa using hline, ?_⟩
          · rw [Text.isWord, hname, Bool.not_false, Bool.true_and, List.all_eq_true]
            exact fun c hc => List.mem_takeWhile_imp hc
          · rw [List.append_assoc, List.cons_append, ← Text.eq_append_of_stripSuffix hinside,
              ← hrest, List.takeWhile_append_dropWhile]
      · cases h
    · cases h
  · rintro ⟨hname, hline, rfl⟩
    rw [Text.isWord, Bool.and_eq_true, List.all_eq_true] at hname
    have hdrop : (name ++ ('(' :: inside ++ [')'])).dropWhile Text.isWordChar =
        '(' :: (inside ++ [')']) := by
      rw [List.dropWhile_append_of_pos hname.2]
      exact List.dropWhile_cons_of_neg (by decide)
    have htake : (name ++ ('(' :: inside ++ [')'])).takeWhile Text.isWordChar = name := by
      rw [List.takeWhile_append_of_pos hname.2, List.cons_append,
        List.takeWhile_cons_of_neg (by decide), List.append_nil]
    have hstrip : Text.stripSuffix ')' (inside ++ [')']) = some inside := by
      rw [Text.stripSuffix, List.getLast?_concat, if_pos rfl, List.dropLast_concat]
    have hempty : name.isEmpty = false := by simpa using hname.1
    have hcontains : inside.contains '\n' = false := by simpa using hline
    rw [List.append_assoc, frame?, hdrop]
    simp only [htake, hstrip, hempty, hcontains, Bool.or_self, Bool.false_eq_true, if_false]

/-- **Which texts are calls**, and what call a text is. -/
theorem parse_eq_ok_iff {text : String} {call : Call} :
    parse text = .ok call ↔ ∃ inside, Text.isWord call.name.toList = true ∧ '\n' ∉ inside ∧
      Text.trim text.toList = call.name.toList ++ '(' :: inside ++ [')'] ∧
      call.args = arguments inside := by
  have hframe : parse text = .ok call ↔ ∃ inside,
      frame? (Text.trim text.toList) = some (call.name.toList, inside) ∧
        call.args = arguments inside := by
    unfold parse
    cases frame? (Text.trim text.toList) with
    | none => simp
    | some found =>
      obtain ⟨name, inside⟩ := found
      obtain ⟨name', args⟩ := call
      simp only [Except.ok.injEq, mk.injEq, Option.some.injEq, Prod.mk.injEq]
      constructor
      · rintro ⟨rfl, rfl⟩
        exact ⟨inside, ⟨String.toList_ofList.symm, rfl⟩, rfl⟩
      · rintro ⟨_, ⟨rfl, rfl⟩, rfl⟩
        exact ⟨String.ofList_toList, rfl⟩
  simp only [hframe, frame?_eq_some_iff, and_assoc]

/-! ### Arguments in the text of a call -/

theorem infix_of_mem_arguments {inside : List Char} {arg : String} (h : arg ∈ arguments inside) :
    arg.toList <:+: inside := by
  rw [arguments_eq] at h
  obtain ⟨item, hitem, rfl⟩ := List.mem_map.1 h
  rw [String.toList_ofList]
  exact Separation.infix_elements hitem

/-- The arguments of a call stand in its text behind the parenthesis. -/
theorem exists_infix_args {text arg : String} {call : Call} (h : parse text = .ok call)
    (harg : arg ∈ call.args) :
    ∃ inside, arg.toList <:+: inside ∧ '(' :: inside <:+: text.toList := by
  obtain ⟨inside, -, -, htext, hargs⟩ := parse_eq_ok_iff.1 h
  refine ⟨inside, infix_of_mem_arguments (hargs ▸ harg), ?_⟩
  refine List.IsInfix.trans ?_ (Text.infix_trim text.toList)
  exact ⟨call.name.toList, [')'], htext.symm⟩

/-- The arguments of a call stand in its text. -/
theorem infix_args {text arg : String} {call : Call} (h : parse text = .ok call)
    (harg : arg ∈ call.args) : arg.toList <:+: text.toList := by
  obtain ⟨inside, hinside, htext⟩ := exists_infix_args h harg
  exact hinside.trans ((List.suffix_cons _ inside).isInfix.trans htext)

/-- The arguments of a call are shorter than its text. -/
theorem length_arg_lt {text arg : String} {call : Call} (h : parse text = .ok call)
    (harg : arg ∈ call.args) : arg.length < text.length := by
  obtain ⟨inside, hinside, htext⟩ := exists_infix_args h harg
  have hless := htext.length_le
  rw [List.length_cons] at hless
  rw [← String.length_toList, ← String.length_toList]
  exact Nat.lt_of_le_of_lt hinside.length_le hless

end TypedSheets.Call
