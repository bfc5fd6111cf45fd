import MessageArgs.Proofs.Signature.Split

/-!
# Where a signature is refused

A text is viable if it can be made longer until it is a signature, however long. The reader refuses
a character exactly if the text up to it is not viable any more: from every state there is a way to
the end of a text, by an element where one is expected and then by all the brackets that are
missing (`run_completion`). Such a completion opens nothing, so it never meets the limits on
nesting.

With that an error of a split says where the text stops being viable, and what is wrong there
(`split_error_located`).
-/

namespace MessageArgs

open MessageArgs.CompleteType (charsAll)

/-! ## Completions -/

/-- The characters that close what a stack holds open, the innermost construct first. -/
def Frame.closers : List Frame → List Char
  | [] => []
  | array _ :: stack => closers stack
  | struct .. :: stack => ')' :: closers stack
  | entry .. :: stack => '}' :: closers stack

namespace Scan

/-- A way from a state to the end of a text. -/
def completion : Scan → List Char
  | awaitElement stack _ => 'y' :: Frame.closers stack
  | awaitKey _ stack _ => 'y' :: 'y' :: '}' :: Frame.closers stack
  | awaitClose _ _ _ stack _ => '}' :: Frame.closers stack

section Completion

variable (grammar : Grammar) (offset : Nat)

/-- What closes the open constructs brings a state in which a type has just been completed to the
end of the text. An array is complete with its element and has nothing to close. -/
theorem run_closers (type : CompleteType) (stack : List Frame) (done : List CompleteType) :
    ∃ types, run grammar (complete type stack done) offset (Frame.closers stack) = .ok types := by
  induction stack generalizing type offset with
  | nil => exact ⟨_, rfl⟩
  | cons frame stack ih =>
    cases frame with
    | array start => exact ih offset (.array type)
    | struct start members =>
      have closes : step grammar offset ')' (complete type (.struct start members :: stack) done) =
          .ok (complete (.struct (type :: members).reverse) stack done) := rfl
      rw [Frame.closers, run_of_step closes]
      exact ih (offset + 1) _
    | entry start key =>
      have closes : step grammar offset '}' (complete type (.entry start key :: stack) done) =
          .ok (complete (.entry key type) stack done) := rfl
      rw [Frame.closers, run_of_step closes]
      exact ih (offset + 1) _

theorem step_byte (stack : List Frame) (done : List CompleteType) :
    step grammar offset 'y' (awaitElement stack done) =
      .ok (complete (.basic .byte) stack done) :=
  elementStep_code grammar offset .byte stack done

/-- Every state can be completed. -/
theorem run_completion (scan : Scan) :
    ∃ types, run grammar scan offset scan.completion = .ok types := by
  cases scan with
  | awaitElement stack done =>
    rw [completion, run_of_step (step_byte grammar offset stack done)]
    exact run_closers grammar (offset + 1) (.basic .byte) stack done
  | awaitKey start stack done =>
    have key : step grammar offset 'y' (awaitKey start stack done) =
        .ok (awaitElement (.entry start .byte :: stack) done) := step_key done offset start .byte
    rw [completion, run_of_step key, run_of_step (step_byte grammar _ _ done)]
    exact run_closers grammar _ (.basic .byte) (.entry start .byte :: stack) done
  | awaitClose start key value stack done =>
    exact run_closers grammar offset value (.entry start key :: stack) done

end Completion

/-- Reading two parts is reading the first, then the second. -/
theorem run_append (grammar : Grammar) (scan : Scan) (offset : Nat) (seen rest : List Char) :
    run grammar scan offset (seen ++ rest) =
      (after grammar scan offset seen).bind fun next =>
        run grammar next (offset + seen.length) rest := by
  induction seen generalizing scan offset with
  | nil => rfl
  | cons c seen ih =>
    rw [List.cons_append, run, after]
    cases scan.step grammar offset c with
    | error => rfl
    | ok next =>
      rw [List.length_cons, Nat.add_comm seen.length, ← Nat.add_assoc]
      exact ih next (offset + 1)

end Scan

/-! ## Viable texts -/

namespace Grammar

/-- The beginning of a text that the grammar divides, whatever the length of that text. -/
def Viable (grammar : Grammar) (seen : List Char) : Prop :=
  ∃ rest elements, grammar.Divides (String.ofList (seen ++ rest)) elements

/-- The viable texts are those that the reader does not refuse before their end. -/
theorem viable_iff {grammar : Grammar} {seen : List Char} :
    grammar.Viable seen ↔ ∃ scan, Scan.after grammar .initial 0 seen = .ok scan := by
  constructor
  · rintro ⟨rest, elements, divided⟩
    obtain ⟨types, -, spelled⟩ := divides_iff.1 divided
    rw [String.toList_ofList] at spelled
    have read := Scan.run_initial_iff.2 spelled
    rw [Scan.run_append] at read
    cases reached : Scan.after grammar .initial 0 seen with
    | error => simp [reached, Except.bind] at read
    | ok scan => exact ⟨scan, rfl⟩
  · rintro ⟨scan, reached⟩
    obtain ⟨types, read⟩ := scan.run_completion grammar (0 + seen.length)
    have whole := Scan.run_append grammar .initial 0 seen scan.completion
    rw [reached, Except.bind, read, Scan.run_initial_iff] at whole
    refine ⟨scan.completion, types.map CompleteType.text, divides_iff.2 ⟨types, rfl, ?_⟩⟩
    rwa [String.toList_ofList]

/-- A text within the limit that is not split stops being viable somewhere, at its end or at a
character that is not a continuation of what comes before it. What comes before is ASCII, so it has
as many bytes as characters, and the error names the place or what is open there. -/
theorem split_error_located (grammar : Grammar) (text : String) (error : SignatureError)
    (short : text.utf8ByteSize ≤ maxLength) (failed : grammar.split text = .error error) :
    ∃ seen rest, text.toList = seen ++ rest ∧ grammar.Viable seen ∧
      (∀ c, rest.head? = some c → ¬ grammar.Viable (seen ++ [c])) ∧ IsAscii seen ∧
      error.Located seen rest ∧ ∃ offset, error.offset? = some offset := by
  rcases split_error failed with ⟨long, -⟩ | ⟨seen, rest, cut, reached, refused, located⟩
  · omega
  · obtain ⟨scan, reached⟩ := reached
    have viable := viable_iff.2 ⟨scan, reached⟩
    refine ⟨seen, rest, cut, viable, ?_, Scan.after_ascii reached, located, ?_⟩
    · intro c here longer
      obtain ⟨next, further⟩ := viable_iff.1 longer
      exact refused c here next further
    · obtain ⟨offset, named, -⟩ := located.offset
      exact ⟨offset, named⟩

/-- A struct in the value of an entry is closed when the refusal comes, so the error is about the
entry. -/
theorem split_error_located_entry :
    caller.split "(a\x7bs(i)xé" = .error (.invalidEntry 2) ∧
      ∃ seen rest, "(a\x7bs(i)xé".toList = seen ++ rest ∧ caller.Viable seen ∧
        (∀ c, rest.head? = some c → ¬ caller.Viable (seen ++ [c])) ∧ IsAscii seen ∧
        (SignatureError.invalidEntry 2).Located seen rest ∧
        ∃ offset, (SignatureError.invalidEntry 2).offset? = some offset :=
  ⟨rfl, split_error_located caller "(a\x7bs(i)xé" (.invalidEntry 2) (by decide) rfl⟩

end Grammar

end MessageArgs
