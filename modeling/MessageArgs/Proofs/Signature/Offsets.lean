import MessageArgs.Proofs.Signature.Scanning
import MessageArgs.Signature.Splitter

/-!
# Offsets in signatures

The reader counts the characters that it has read, and the offsets in its errors are such counts.
All that it reads is ASCII, because that is true of every spelling. So a count of characters is a
count of bytes, and the position that it names lies between two characters of the text.

* `after_sound`: a state that has been reached spells what has been read.
* `isValid_of_ascii`: after some ASCII characters a text has a character boundary.
* `step_tracks`: the brackets in a state are those that are open in what has been read.
* `run_located`: an error says where the reader stands, or what is open there.
-/

namespace MessageArgs

open MessageArgs.CompleteType (chars charsAll)

/-! ## ASCII -/

/-- A list of ASCII characters, each of which is one byte long. -/
def IsAscii (text : List Char) : Prop :=
  ∀ c ∈ text, c.utf8Size = 1

@[simp]
theorem isAscii_append {text text' : List Char} :
    IsAscii (text ++ text') ↔ IsAscii text ∧ IsAscii text' :=
  List.forall_mem_append

@[simp]
theorem isAscii_cons {c : Char} {text : List Char} :
    IsAscii (c :: text) ↔ c.utf8Size = 1 ∧ IsAscii text :=
  List.forall_mem_cons

theorem isAscii_nil : IsAscii [] := by simp [IsAscii]

theorem BasicType.code_ascii (type : BasicType) : type.code.utf8Size = 1 := by
  cases type <;> rfl

theorem utf8ByteSize_of_ascii {text : List Char} (ascii : IsAscii text) :
    (String.ofList text).utf8ByteSize = text.length := by
  induction text with
  | nil => rfl
  | cons c text ih =>
    rw [isAscii_cons] at ascii
    rw [String.ofList_cons, String.utf8ByteSize_append, String.utf8ByteSize_singleton, ascii.1,
      ih ascii.2, List.length_cons, Nat.add_comm]

/-- After some ASCII characters a text has a character boundary. -/
theorem isValid_of_ascii {text : String} {seen rest : List Char} (cut : text.toList = seen ++ rest)
    (ascii : IsAscii seen) : String.Pos.Raw.IsValid text ⟨seen.length⟩ := by
  rw [String.Pos.Raw.isValid_iff_exists_append]
  refine ⟨String.ofList seen, String.ofList rest, ?_, ?_⟩
  · rw [← String.ofList_append, ← cut, String.ofList_toList]
  · rw [← utf8ByteSize_of_ascii ascii]
    rfl

/-- If some text is left after some ASCII characters, there is a byte after as many bytes. -/
theorem lt_utf8ByteSize_of_ascii {text : String} {seen rest : List Char}
    (cut : text.toList = seen ++ rest) (ascii : IsAscii seen) (left : rest ≠ []) :
    seen.length < text.utf8ByteSize := by
  have bytes : 0 < (String.ofList rest).utf8ByteSize := by
    rw [Nat.pos_iff_ne_zero, ne_eq, String.utf8ByteSize_eq_zero_iff, String.ofList_eq_empty_iff]
    exact left
  have total := congrArg (fun cs => (String.ofList cs).utf8ByteSize) cut
  simp only [String.ofList_append, String.utf8ByteSize_append, String.ofList_toList,
    utf8ByteSize_of_ascii ascii] at total
  omega

namespace CompleteType

mutual

theorem chars_ascii : (type : CompleteType) → IsAscii type.chars
  | .basic type => by simp [chars, IsAscii, type.code_ascii]
  | .variant | .wildcard => by simp [chars, IsAscii]; decide
  | .array element => by
    rw [chars, isAscii_cons]
    exact ⟨by decide, chars_ascii element⟩
  | .struct members => by
    rw [chars, isAscii_cons, isAscii_append, isAscii_cons]
    exact ⟨by decide, charsAll_ascii members, by decide, isAscii_nil⟩
  | .entry key value => by
    rw [chars, isAscii_cons, isAscii_cons, isAscii_append, isAscii_cons]
    exact ⟨by decide, key.code_ascii, chars_ascii value, by decide, isAscii_nil⟩

theorem charsAll_ascii : (types : List CompleteType) → IsAscii (charsAll types)
  | [] => by rw [charsAll]; exact isAscii_nil
  | type :: types => by
    rw [charsAll, isAscii_append]
    exact ⟨chars_ascii type, charsAll_ascii types⟩

end

theorem length_text (type : CompleteType) : type.text.utf8ByteSize = type.chars.length :=
  utf8ByteSize_of_ascii type.chars_ascii

theorem utf8ByteSize_of_spelled {types : List CompleteType} {text : String}
    (spelled : charsAll types = text.toList) : text.utf8ByteSize = (charsAll types).length := by
  rw [← utf8ByteSize_of_ascii (charsAll_ascii types), spelled, String.ofList_toList]

end CompleteType

namespace Scan

open MessageArgs.CompleteType (chars_ascii charsAll_ascii)

theorem spellingOfAll_ascii (stack : List Frame) : IsAscii (Frame.spellingOfAll stack) := by
  induction stack with
  | nil => exact isAscii_nil
  | cons frame stack ih =>
    rw [Frame.spellingOfAll, isAscii_append]
    refine ⟨ih, ?_⟩
    cases frame with
    | array => simp [Frame.spelling, IsAscii]; decide
    | struct start members =>
      rw [Frame.spelling, isAscii_cons]
      exact ⟨by decide, charsAll_ascii members.reverse⟩
    | entry start key => simp [Frame.spelling, IsAscii, key.code_ascii]; decide

theorem spelling_ascii (scan : Scan) : IsAscii scan.spelling := by
  cases scan with
  | awaitElement stack done =>
    rw [spelling, isAscii_append]
    exact ⟨charsAll_ascii _, spellingOfAll_ascii stack⟩
  | awaitKey start stack done =>
    rw [spelling, isAscii_append, isAscii_append, isAscii_cons]
    exact ⟨⟨charsAll_ascii _, spellingOfAll_ascii stack⟩, by decide, isAscii_nil⟩
  | awaitClose start key value stack done =>
    rw [spelling, isAscii_append, isAscii_append, isAscii_cons, isAscii_cons]
    exact ⟨⟨charsAll_ascii _, spellingOfAll_ascii stack⟩, by decide, key.code_ascii,
      chars_ascii value⟩

/-! ## States that are reached -/

/-- The state that some characters lead to. -/
def after (grammar : Grammar) : Scan → Nat → List Char → Except SignatureError Scan
  | scan, _, [] => .ok scan
  | scan, offset, c :: rest =>
    match scan.step grammar offset c with
    | .ok next => after grammar next (offset + 1) rest
    | .error error => .error error

/-- A state that is reached spells what led to it. -/
theorem after_sound {grammar : Grammar} {scan next : Scan} {offset : Nat} {seen : List Char}
    (h : after grammar scan offset seen = .ok next) (valid : scan.Valid grammar) :
    next.Valid grammar ∧ next.spelling = scan.spelling ++ seen := by
  induction seen generalizing scan offset with
  | nil =>
    cases h
    exact ⟨valid, (List.append_nil _).symm⟩
  | cons c seen ih =>
    rw [after] at h
    split at h
    · rename_i middle stepped
      obtain ⟨middleValid, middleSpelling⟩ := step_sound stepped valid
      obtain ⟨nextValid, nextSpelling⟩ := ih h middleValid
      refine ⟨nextValid, ?_⟩
      rw [nextSpelling, middleSpelling, List.append_assoc, List.singleton_append]
    · cases h

/-- All that has been read when a state is reached is ASCII. -/
theorem after_ascii {grammar : Grammar} {scan : Scan} {seen : List Char}
    (h : after grammar initial 0 seen = .ok scan) : IsAscii seen := by
  have spelled := (after_sound h ⟨by simp, trivial⟩).2
  have nothing : initial.spelling = [] := rfl
  rw [nothing, List.nil_append] at spelled
  rw [← spelled]
  exact spelling_ascii scan

end Scan

/-! ## Open brackets -/

/-- What a character at a position makes of the brackets that are open, the innermost first. -/
def bracketStep (opened : List (Char × Nat)) (c : Char) (pos : Nat) : List (Char × Nat) :=
  if Splitter.isOpening c then (c, pos) :: opened
  else if Splitter.isClosing c then opened.tail
  else opened

/-- The brackets of a text that are still open at its end, the innermost first, each with its
position. -/
def openBrackets (text : List Char) : List (Char × Nat) :=
  text.zipIdx.foldl (fun opened next => bracketStep opened next.1 next.2) []

theorem openBrackets_concat (text : List Char) (c : Char) :
    openBrackets (text ++ [c]) = bracketStep (openBrackets text) c text.length := by
  rw [openBrackets, List.zipIdx_append, List.foldl_append, Nat.zero_add]
  rfl

theorem mem_bracketStep {opened : List (Char × Nat)} {c : Char} {pos : Nat} {bracket : Char × Nat}
    (member : bracket ∈ bracketStep opened c pos) : bracket = (c, pos) ∨ bracket ∈ opened := by
  rw [bracketStep] at member
  split at member
  · exact List.mem_cons.1 member
  split at member
  · exact .inr (List.mem_of_mem_tail member)
  · exact .inr member

namespace Splitter

theorem isOpening_code (type : BasicType) : isOpening type.code = false := by
  cases type <;> rfl

theorem isClosing_code (type : BasicType) : isClosing type.code = false := by
  cases type <;> rfl

/-- A type of one character is not spelled by a bracket. -/
theorem plain_of_chars {type : CompleteType} {c : Char} (spelled : type.chars = [c]) :
    isOpening c = false ∧ isClosing c = false := by
  cases type with
  | basic type =>
    rw [chars, List.cons.injEq] at spelled
    rw [← spelled.1]
    exact ⟨isOpening_code type, isClosing_code type⟩
  | variant =>
    cases spelled
    exact ⟨rfl, rfl⟩
  | wildcard =>
    cases spelled
    exact ⟨rfl, rfl⟩
  | array element => simp [chars, CompleteType.chars_ne_nil] at spelled
  | struct members => simp [chars] at spelled
  | entry key value => simp [chars] at spelled

end Splitter

/-- The brackets of the frames of a stack. -/
def Frame.brackets : List Frame → List (Char × Nat)
  | [] => []
  | array _ :: stack => brackets stack
  | struct start _ :: stack => ('(', start) :: brackets stack
  | entry start _ :: stack => ('{', start) :: brackets stack

namespace Scan

/-- The brackets that a state knows to be open. -/
def brackets : Scan → List (Char × Nat)
  | awaitElement stack _ => Frame.brackets stack
  | awaitKey start stack _ => ('{', start) :: Frame.brackets stack
  | awaitClose start _ _ stack _ => ('{', start) :: Frame.brackets stack

/-- The array or struct that the last character has opened. -/
def latest? : Scan → Option (Char × Nat)
  | awaitElement (.array start :: _) _ => some ('a', start)
  | awaitElement (.struct start [] :: _) _ => some ('(', start)
  | _ => none

theorem brackets_complete (type : CompleteType) (stack : List Frame) (done : List CompleteType) :
    (complete type stack done).brackets = Frame.brackets stack := by
  induction stack generalizing type with
  | nil => rfl
  | cons frame stack ih =>
    cases frame with
    | array start => exact ih (.array type)
    | struct => rfl
    | entry => rfl

theorem latest?_complete (type : CompleteType) (stack : List Frame) (done : List CompleteType) :
    (complete type stack done).latest? = none := by
  induction stack generalizing type with
  | nil => rfl
  | cons frame stack ih =>
    cases frame with
    | array start => exact ih (.array type)
    | struct => rfl
    | entry => rfl

/-- The positions in a state are those in what has been read. -/
structure Tracks (seen : List Char) (scan : Scan) : Prop where
  brackets : openBrackets seen = scan.brackets
  inside : ∀ bracket ∈ scan.brackets, bracket.2 < seen.length
  latest : ∀ c start, scan.latest? = some (c, start) →
    ∃ before, seen = before ++ [c] ∧ before.length = start

theorem tracks_initial : Tracks [] initial where
  brackets := rfl
  inside := by simp [brackets, initial, Frame.brackets]
  latest := nofun

theorem Tracks.next {seen : List Char} {scan next : Scan} {c : Char} (tracks : Tracks seen scan)
    (brackets : next.brackets = bracketStep scan.brackets c seen.length)
    (latest : next.latest? = none ∨ next.latest? = some (c, seen.length)) :
    Tracks (seen ++ [c]) next where
  brackets := by rw [openBrackets_concat, tracks.brackets, brackets]
  inside := by
    intro bracket member
    rw [List.length_append, List.length_singleton]
    rw [brackets] at member
    rcases mem_bracketStep member with rfl | old
    · exact Nat.lt_succ_self _
    · exact Nat.lt_succ_of_lt (tracks.inside bracket old)
  latest := by
    intro c' start found
    rcases latest with nothing | here
    · rw [nothing] at found
      cases found
    · rw [here] at found
      cases found
      exact ⟨seen, rfl, rfl⟩

/-- A step keeps track of positions. -/
theorem step_tracks {grammar : Grammar} {seen : List Char} {scan next : Scan} {c : Char}
    (h : scan.step grammar seen.length c = .ok next) (tracks : Tracks seen scan) :
    Tracks (seen ++ [c]) next := by
  have effect := step_effect grammar seen.length c scan
  rw [h] at effect
  cases effect with
  | @leaf type c stack done spelled shaped flat =>
    refine tracks.next ?_ (.inl (latest?_complete ..))
    have plain := Splitter.plain_of_chars spelled
    rw [brackets_complete, bracketStep, plain.1, plain.2]
    rfl
  | openArray room => exact tracks.next rfl (.inr rfl)
  | openStruct room => exact tracks.next rfl (.inr rfl)
  | openEntry room welcome => exact tracks.next rfl (.inl rfl)
  | key key =>
    refine tracks.next ?_ (.inl rfl)
    rw [bracketStep, Splitter.isOpening_code, Splitter.isClosing_code]
    rfl
  | closeStruct nonempty =>
    exact tracks.next (brackets_complete ..) (.inl (latest?_complete ..))
  | closeEntry => exact tracks.next (brackets_complete ..) (.inl (latest?_complete ..))

theorem after_tracks {grammar : Grammar} {seen rest : List Char} {scan next : Scan}
    (h : after grammar scan seen.length rest = .ok next) (tracks : Tracks seen scan) :
    Tracks (seen ++ rest) next := by
  induction rest generalizing seen scan with
  | nil =>
    cases h
    rwa [List.append_nil]
  | cons c rest ih =>
    rw [after] at h
    split at h
    · rename_i middle stepped
      have moved : (seen ++ [c]).length = seen.length + 1 := List.length_append
      have all := ih (moved ▸ h) (step_tracks stepped tracks)
      rwa [List.append_assoc, List.singleton_append] at all
    · cases h

end Scan

/-! ## Errors -/

namespace SignatureError

/-- The position that an error names, if it names one. -/
def offset? : SignatureError → Option Nat
  | unknownTag _ offset => some offset
  | unbalanced _ offset => some offset
  | unexpectedClose _ offset => some offset
  | missingElement offset => some offset
  | emptyStruct offset => some offset
  | entryOutsideArray offset => some offset
  | invalidKey _ offset => some offset
  | invalidEntry offset => some offset
  | tooDeep _ _ offset => some offset
  | wildcardNotAllowed offset => some offset
  | tooLong .. => none
  | notSingle .. => none

/-- What an error says of a text of which `seen` could be read and `rest` is left. -/
def Located (seen rest : List Char) : SignatureError → Prop
  | missingElement offset => rest = [] ∧ ∃ before, seen = before ++ ['a'] ∧ before.length = offset
  | unbalanced opening offset =>
    rest = [] ∧ (openBrackets seen).head? = some (opening, offset) ∧ offset < seen.length
  | emptyStruct offset =>
    rest.head? = some ')' ∧ ∃ before, seen = before ++ ['('] ∧ before.length = offset
  | invalidEntry offset =>
    rest ≠ [] ∧ (openBrackets seen).head? = some ('{', offset) ∧ offset < seen.length
  | error => ∃ c, rest.head? = some c ∧ error.Names c seen.length

theorem Names.offset?_eq {error : SignatureError} {c : Char} {offset : Nat}
    (named : error.Names c offset) : error.offset? = some offset := by
  cases error with
  | tooDeep => exact congrArg some named.2.2
  | unknownTag => exact congrArg some named.2
  | unexpectedClose => exact congrArg some named.2
  | invalidKey => exact congrArg some named.2
  | entryOutsideArray => exact congrArg some named.2
  | wildcardNotAllowed => exact congrArg some named.2
  | _ => exact named.elim

theorem Names.located {error : SignatureError} {c : Char} {seen : List Char}
    (named : error.Names c seen.length) (rest : List Char) : error.Located seen (c :: rest) := by
  cases error <;> first | exact ⟨c, rfl, named⟩ | exact named.elim

/-- An error names a character that has been read or the next one. -/
theorem Located.offset {error : SignatureError} {seen rest : List Char}
    (located : error.Located seen rest) :
    ∃ offset, error.offset? = some offset ∧
      (offset < seen.length ∨ offset = seen.length ∧ rest ≠ []) := by
  cases error with
  | missingElement start =>
    obtain ⟨-, before, rfl, rfl⟩ := located
    exact ⟨_, rfl, .inl (by simp)⟩
  | unbalanced opening start => exact ⟨start, rfl, .inl located.2.2⟩
  | emptyStruct start =>
    obtain ⟨-, before, rfl, rfl⟩ := located
    exact ⟨_, rfl, .inl (by simp)⟩
  | invalidEntry start => exact ⟨start, rfl, .inl located.2.2⟩
  | _ =>
    obtain ⟨c, here, names⟩ := located
    exact ⟨_, names.offset?_eq, .inr ⟨rfl, by rintro rfl; cases here⟩⟩

/-- The position that an error names has been reached, and there is a character at it. -/
theorem Located.offset_le {error : SignatureError} {seen rest : List Char} {offset : Nat}
    (located : error.Located seen rest) (named : error.offset? = some offset) :
    offset ≤ seen.length ∧ offset < (seen ++ rest).length := by
  obtain ⟨place, named', reached⟩ := located.offset
  rw [named] at named'
  cases named'
  rw [List.length_append]
  rcases reached with inside | ⟨rfl, left⟩
  · omega
  · have := List.length_pos_iff.2 left
    omega

end SignatureError

namespace Scan

/-- What a refused character makes the reader say. -/
theorem step_located {grammar : Grammar} {seen : List Char} {scan : Scan} {c : Char}
    {error : SignatureError} (h : scan.step grammar seen.length c = .error error)
    (tracks : Tracks seen scan) (rest : List Char) : error.Located seen (c :: rest) := by
  have effect := step_effect grammar seen.length c scan
  have innermost := tracks.brackets
  rw [h] at effect
  cases effect with
  | refused named => exact named.located rest
  | emptyStruct => exact ⟨rfl, tracks.latest _ _ rfl⟩
  | noKey => exact ⟨by simp, by rw [innermost]; rfl, tracks.inside _ List.mem_cons_self⟩
  | noValue => exact ⟨by simp, by rw [innermost]; rfl, tracks.inside _ List.mem_cons_self⟩
  | secondValue => exact ⟨by simp, by rw [innermost]; rfl, tracks.inside _ List.mem_cons_self⟩

/-- What the end of the text makes the reader say if something is open. -/
theorem finish_located {seen : List Char} {scan : Scan} {error : SignatureError}
    (h : scan.finish = .error error) (tracks : Tracks seen scan) : error.Located seen [] := by
  have innermost := tracks.brackets
  unfold finish at h
  split at h
  · cases h
  · cases h
    exact ⟨rfl, tracks.latest _ _ rfl⟩
  all_goals
    cases h
    exact ⟨rfl, by rw [innermost]; rfl, tracks.inside _ List.mem_cons_self⟩

/-- A run that fails reaches a state that refuses the next character or the end. -/
theorem run_refused {grammar : Grammar} {scan : Scan} {offset : Nat} {text : List Char}
    {error : SignatureError} (h : run grammar scan offset text = .error error) :
    ∃ seen rest next, text = seen ++ rest ∧ after grammar scan offset seen = .ok next ∧
      (rest = [] ∧ next.finish = .error error ∨
        ∃ c rest', rest = c :: rest' ∧
          next.step grammar (offset + seen.length) c = .error error) := by
  induction text generalizing scan offset with
  | nil => exact ⟨[], [], scan, rfl, rfl, .inl ⟨rfl, h⟩⟩
  | cons c text ih =>
    rw [run] at h
    split at h
    · rename_i next stepped
      obtain ⟨seen, rest, last, rfl, reached, refused⟩ := ih h
      refine ⟨c :: seen, rest, last, rfl, ?_, ?_⟩
      · rw [after, stepped]
        exact reached
      · rwa [List.length_cons, Nat.add_comm seen.length, ← Nat.add_assoc]
    · rename_i refusal stepped
      cases h
      exact ⟨[], c :: text, scan, rfl, rfl, .inr ⟨c, text, rfl, stepped⟩⟩

theorem after_concat (grammar : Grammar) (scan : Scan) (offset : Nat) (seen : List Char)
    (c : Char) :
    after grammar scan offset (seen ++ [c]) =
      (after grammar scan offset seen).bind fun next =>
        next.step grammar (offset + seen.length) c := by
  induction seen generalizing scan offset with
  | nil =>
    show after grammar scan offset [c] = scan.step grammar offset c
    rw [after]
    cases scan.step grammar offset c <;> rfl
  | cons c' seen ih =>
    rw [List.cons_append, after, after]
    cases scan.step grammar offset c' with
    | error => rfl
    | ok next =>
      rw [List.length_cons, Nat.add_comm seen.length, ← Nat.add_assoc]
      exact ih next (offset + 1)

/-- A refusal says where the reader stands: what it has read leads to a state, and with the next
character, if there is one, it does not. -/
theorem run_located {grammar : Grammar} {text : List Char} {error : SignatureError}
    (h : run grammar initial 0 text = .error error) :
    ∃ seen rest, text = seen ++ rest ∧ (∃ scan, after grammar initial 0 seen = .ok scan) ∧
      (∀ c, rest.head? = some c → ∀ scan, after grammar initial 0 (seen ++ [c]) ≠ .ok scan) ∧
      error.Located seen rest := by
  obtain ⟨seen, rest, scan, cut, reached, refused⟩ := run_refused h
  have tracks : Tracks seen scan := after_tracks reached tracks_initial
  rw [Nat.zero_add] at refused
  refine ⟨seen, rest, cut, ⟨scan, reached⟩, ?_⟩
  rcases refused with ⟨rfl, refused⟩ | ⟨c, rest', rfl, refused⟩
  · exact ⟨nofun, finish_located refused tracks⟩
  · refine ⟨fun c' here next => ?_, step_located refused tracks rest'⟩
    cases here
    rw [after_concat, reached, Except.bind, Nat.zero_add, refused]
    exact nofun

end Scan

end MessageArgs
