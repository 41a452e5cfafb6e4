import TypedSheets.Proofs.Call.Arguments
import TypedSheets.Proofs.Collections

/-!
# Calls are read as they are written

A call is written with its arguments in parentheses, a comma and a blank between each two. What is
written is read again, as long as no argument has a comma outside of its own parentheses; and what
has been read from any text is written and read again, balanced or not.

## Main definitions

* `Call.written` — a call as it is written.
* `Call.IsArgument` — a text that may be an argument.

## Main results

* `Call.parse_written_of_elements` — a written call is read if its arguments are found again.
* `Call.parse_written` — calls are read as they are written, and written as they are read.
-/

namespace TypedSheets.Call

/-- A call as it is written, with a comma and a blank between each two arguments. -/
def written (call : Call) : String :=
  call.name ++ "(" ++ Text.joinWith ", " call.args ++ ")"

/-- A text that may be an argument: trimmed and not empty, on one line, with balanced parentheses
and no comma outside of them. -/
structure IsArgument (arg : List Char) : Prop extends commas.IsElement arg where
  oneLine : '\n' ∉ arg

instance : DecidablePred IsArgument := fun arg =>
  decidable_of_iff (commas.IsElement arg ∧ '\n' ∉ arg)
    ⟨fun ⟨h, hline⟩ => ⟨h, hline⟩, fun h => ⟨h.toIsElement, h.oneLine⟩⟩

/-! ### Written calls -/

/-- A written call is read if its name is a word, its arguments are on one line and they are found
again between the commas. -/
theorem parse_written_of_elements {call : Call} (hname : Text.isWord call.name.toList = true)
    (hline : ∀ arg ∈ call.args, '\n' ∉ arg.toList)
    (helements : commas.elements 0 ([',', ' '].intercalate (call.args.map String.toList)) =
      call.args.map String.toList) :
    parse call.written = .ok call := by
  let inside := [',', ' '].intercalate (call.args.map String.toList)
  have htext : call.written.toList = call.name.toList ++ '(' :: inside ++ [')'] := by
    simp [written, Text.joinWith, inside]
  obtain ⟨hnonempty, hall⟩ := Bool.and_eq_true_iff.1 hname
  obtain ⟨c, rest, hrest⟩ : ∃ c rest, call.name.toList = c :: rest :=
    List.exists_cons_of_ne_nil (by simpa using hnonempty)
  have hc : Text.isWordChar c = true := List.all_eq_true.1 hall c (by simp [hrest])
  refine parse_eq_ok_iff.2 ⟨inside, hname, fun h => ?_, ?_, ?_⟩
  · rcases List.exists_of_mem_intercalate h with h | ⟨item, hitem, hx⟩
    · simp at h
    · obtain ⟨arg, harg, rfl⟩ := List.mem_map.1 hitem
      exact hline arg harg hx
  · rw [htext]
    exact Text.trim_of_ends (by rw [hrest]; rfl) rfl (Text.isBlank_of_isWordChar hc) (by decide)
  · rw [arguments_eq, helements, List.map_map]
    simp

/-- **Calls are read as they are written.** A call is read again from what is written if its name is
a word and its arguments may be arguments. And whatever call is read from a text, balanced or not,
is read again from what is written. -/
theorem parse_written :
    (∀ name args, Text.isWord name.toList = true → (∀ arg ∈ args, IsArgument arg.toList) →
      parse (written ⟨name, args⟩) = .ok ⟨name, args⟩) ∧
    ∀ text call, parse text = .ok call → parse call.written = .ok call := by
  have hblank : ∀ c ∈ [' '], Text.isBlank c = true := List.forall_mem_singleton.2 rfl
  constructor
  · intro name args hname hargs
    refine parse_written_of_elements hname (fun arg harg => (hargs arg harg).oneLine) ?_
    refine Separation.elements_of_joined (Separation.joined_intercalate rfl hblank _) ?_
    refine Separation.stays_of_isElement fun item hitem => ?_
    obtain ⟨arg, harg, rfl⟩ := List.mem_map.1 hitem
    exact (hargs arg harg).toIsElement
  · intro text call h
    obtain ⟨inside, hname, hline, -, hargs⟩ := parse_eq_ok_iff.1 h
    have hitems : call.args.map String.toList = commas.elements 0 inside := by
      rw [hargs, arguments_eq, List.map_map]
      simp
    refine parse_written_of_elements hname (fun arg harg hmem => hline ?_) ?_
    · have hitem : arg.toList ∈ commas.elements 0 inside := hitems ▸ List.mem_map_of_mem harg
      exact (Separation.infix_elements hitem).subset hmem
    · rw [hitems]
      exact Separation.elements_intercalate_elements rfl hblank 0 inside

/-- A name of another script, arguments with commas in nested parentheses, and a text whose
parentheses do not match, with an empty argument. -/
theorem parse_written_nested :
    let call : Call := ⟨"Größe", ["f(a, (b), c)", "()"]⟩
    let loose : Call := ⟨"f", ["a", ")b, c(", "((d"]⟩
    parse call.written = .ok call ∧ parse " f(a,, )b, c( ,((d) " = .ok loose ∧
      parse loose.written = .ok loose := by
  intro call loose
  have hloose : parse " f(a,, )b, c( ,((d) " = .ok loose := by decide +kernel
  refine ⟨parse_written.1 _ _ (by decide +kernel) ?_, hloose, parse_written.2 _ _ hloose⟩
  decide +kernel

end TypedSheets.Call
