import TypedSheets.Proofs.Call.RoundTrip

/-!
# Where a call is closed

A text is a call if it is a word and one line in parentheses, whatever these enclose: the last
parenthesis of the text need not be the one that closes the first. It is exactly if the arguments
are balanced, and two calls in a row are read as one call.

## Main definitions

* `Call.ClosedAtEnd` — the parenthesis behind the name is closed by the last character.

## Main results

* `Call.closedAtEnd_iff` — what stands in the parentheses decides.
* `Call.balanced_elements_iff` — the arguments are balanced if what they are cut from is.
* `Call.accepted_closed_iff` — which texts are calls, and which of them are closed at the end.
-/

namespace TypedSheets.Call

/-- In a text that starts with a name and a parenthesis, the last character closes that. -/
def ClosedAtEnd (name text : List Char) : Prop :=
  (name.length, text.length - 1) ∈ (Text.pairing text).pairs

instance (name text : List Char) : Decidable (ClosedAtEnd name text) :=
  inferInstanceAs (Decidable (_ ∈ _))

theorem closedAtEnd_iff (name inside : List Char) :
    ClosedAtEnd name (name ++ '(' :: inside ++ [')']) ↔ Text.Balanced inside := by
  have hlast : (name ++ '(' :: inside ++ [')']).length - 1 = name.length + inside.length + 1 := by
    simp only [List.length_append, List.length_cons, List.length_nil]
    omega
  rw [ClosedAtEnd, hlast]
  exact Text.mem_pairs_iff name inside []

/-- The elements between commas are balanced if and only if what they are cut from is: it is cut
only where as many parentheses are closed as opened. -/
theorem balanced_elements_iff {d : Int} (hd : d = 0) (text : List Char) :
    (∀ item ∈ commas.elements d text, Text.Balanced item) ↔ Text.Balanced text := by
  induction d, text using Separation.cut_induction (S := commas) with
  | whole d text hwhole =>
    rw [Separation.elements_of_whole hwhole]
    exact Separation.forall_mem_solid_iff text
  | cut d text c rest hwhole hcuts ih =>
    have hzero : d + Text.depth text = 0 := of_decide_eq_true (Separation.cuts_iff.1 hcuts).2
    have hplain := Separation.ne_of_marks (Separation.cuts_iff.1 hcuts).1
    have hcomma : Text.Balanced [c] := .of_plain (List.forall_mem_singleton.2 hplain)
    rw [Separation.elements_append_cons hwhole hcuts, List.forall_mem_append,
      Separation.forall_mem_solid_iff, ih hzero, Text.Balanced.append_iff (by omega),
      ← List.singleton_append, Text.Balanced.append_iff hcomma.ends, and_iff_right hcomma]

/-- **Which texts are calls, and which of them are closed at the end.** A text is a call exactly if
it is a word and one line in parentheses. Then the parenthesis behind the name is closed by the last
character, and every argument is balanced, exactly if what these two enclose is balanced. -/
theorem accepted_closed_iff (text : String) :
    ((∃ call, parse text = .ok call) ↔ ∃ name inside, Text.isWord name = true ∧ '\n' ∉ inside ∧
      Text.trim text.toList = name ++ '(' :: inside ++ [')']) ∧
    ∀ call, parse text = .ok call →
      ∃ inside, Text.trim text.toList = call.name.toList ++ '(' :: inside ++ [')'] ∧
        (ClosedAtEnd call.name.toList (Text.trim text.toList) ↔ Text.Balanced inside) ∧
        ((∀ arg ∈ call.args, Text.Balanced arg.toList) ↔ Text.Balanced inside) := by
  constructor
  · constructor
    · rintro ⟨call, h⟩
      obtain ⟨inside, hname, hline, htext, -⟩ := parse_eq_ok_iff.1 h
      exact ⟨_, inside, hname, hline, htext⟩
    · rintro ⟨name, inside, hname, hline, htext⟩
      refine ⟨⟨String.ofList name, arguments inside⟩, parse_eq_ok_iff.2 ⟨inside, ?_⟩⟩
      rw [String.toList_ofList]
      exact ⟨hname, hline, htext, rfl⟩
  · intro call h
    obtain ⟨inside, -, -, htext, hargs⟩ := parse_eq_ok_iff.1 h
    refine ⟨inside, htext, ?_, ?_⟩
    · rw [htext, closedAtEnd_iff]
    · rw [← balanced_elements_iff rfl, hargs, arguments_eq, List.forall_mem_map]
      simp only [String.toList_ofList]

/-- A call among the arguments of another, with blanks around the text. -/
theorem nested_call_closed :
    let text := " Lerp(0, g(1, 2)) "
    let call : Call := ⟨"Lerp", ["0", "g(1, 2)"]⟩
    parse text = .ok call ∧
      ∃ inside, Text.trim text.toList = call.name.toList ++ '(' :: inside ++ [')'] ∧
        (ClosedAtEnd call.name.toList (Text.trim text.toList) ↔ Text.Balanced inside) ∧
        ((∀ arg ∈ call.args, Text.Balanced arg.toList) ↔ Text.Balanced inside) := by
  intro text call
  have h : parse text = .ok call := by decide +kernel
  exact ⟨h, (accepted_closed_iff text).2 call h⟩

/-- Two calls in a row are read as one, with an argument that is not balanced. -/
theorem calls_in_a_row :
    let call : Call := ⟨"f", ["a)g(b"]⟩
    parse "f(a)g(b)" = .ok call ∧
      ¬ ClosedAtEnd call.name.toList (Text.trim "f(a)g(b)".toList) ∧
      ¬ ∀ arg ∈ call.args, Text.Balanced arg.toList := by
  exact ⟨rfl, by decide +kernel, by decide +kernel⟩

end TypedSheets.Call
