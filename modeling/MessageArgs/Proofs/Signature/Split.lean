import MessageArgs.Proofs.Outcome
import MessageArgs.Proofs.Signature.Offsets

/-!
# Splitting signatures

The texts that a grammar accepts, and how it divides them. A `Divides` is a division of a text into
texts that the grammar derives. A text within the length limit is split exactly if it has a
division, and then it has only one (`split_iff_divides`).

`read_iff` says the same of the trees, and is what the rest of the theory uses: a text is read as
the admitted types that it spells.
-/

namespace MessageArgs

open MessageArgs.CompleteType (chars chars_ne_nil charsAll nesting nestingOfAll Shaped)

namespace Grammar

/-! ## Reading -/

/-- A text is read as the admitted types that it spells. -/
theorem read_iff {grammar : Grammar} {text : String} {types : List CompleteType} :
    grammar.read text = .ok types ↔
      text.utf8ByteSize ≤ maxLength ∧ charsAll types = text.toList ∧
        ∀ type ∈ types, grammar.Admits type := by
  rw [read]
  split
  · rename_i long
    constructor
    · intro h
      cases h
    · intro h
      obtain ⟨short, -⟩ := h
      omega
  · rename_i short
    rw [Scan.run_initial_iff]
    constructor
    · intro h
      exact ⟨by omega, h⟩
    · intro h
      exact h.2

/-- Reading with more extensions changes nothing about a text that is read without them. -/
theorem read_mono {grammar wider : Grammar} {text : String} {types : List CompleteType}
    (h : grammar.read text = .ok types) (wildcard : grammar.wildcard = true → wider.wildcard = true)
    (bareEntry : grammar.bareEntry = true → wider.bareEntry = true) :
    wider.read text = .ok types := by
  rw [read_iff] at h ⊢
  obtain ⟨short, spelled, admitted⟩ := h
  exact ⟨short, spelled, fun type member => (admitted type member).mono wildcard bareEntry⟩

/-! ## Divisions -/

/-- A text divided into texts that the grammar derives. -/
def Divides (grammar : Grammar) (text : String) (elements : List String) : Prop :=
  (∀ element ∈ elements, element ≠ "") ∧ String.join elements = text ∧
    ∀ element ∈ elements, grammar.Derives element.toList

theorem charsAll_eq_flatMap (types : List CompleteType) :
    charsAll types = (types.map CompleteType.text).flatMap String.toList := by
  induction types with
  | nil => rfl
  | cons type types ih => simp [charsAll, ih, CompleteType.text]

theorem length_le_length_charsAll (types : List CompleteType) :
    types.length ≤ (charsAll types).length := by
  induction types with
  | nil => exact Nat.zero_le _
  | cons type types ih =>
    have := List.length_pos_iff.2 (chars_ne_nil type)
    rw [charsAll, List.length_cons, List.length_append]
    omega

/-- The divisions of a text are the lists of admitted types that it spells. -/
theorem divides_iff {grammar : Grammar} {text : String} {elements : List String} :
    grammar.Divides text elements ↔
      ∃ types : List CompleteType, elements = types.map CompleteType.text ∧
        charsAll types = text.toList ∧ ∀ type ∈ types, grammar.Admits type := by
  constructor
  · intro h
    obtain ⟨-, joined, derived⟩ := h
    have trees : ∃ types : List CompleteType, elements = types.map CompleteType.text ∧
        ∀ type ∈ types, grammar.Admits type := by
      clear joined
      induction elements with
      | nil => exact ⟨[], rfl, by simp⟩
      | cons element elements ih =>
        rw [List.forall_mem_cons] at derived
        obtain ⟨types, rfl, admitted⟩ := ih derived.2
        obtain ⟨type, spelled, fits⟩ := derives_iff.1 derived.1
        refine ⟨type :: types, ?_, List.forall_mem_cons.2 ⟨fits, admitted⟩⟩
        rw [List.map_cons, CompleteType.text, ← spelled, String.ofList_toList]
    obtain ⟨types, rfl, admitted⟩ := trees
    refine ⟨types, rfl, ?_, admitted⟩
    rw [← joined, String.toList_join, charsAll_eq_flatMap]
  · intro h
    obtain ⟨types, rfl, spelled, admitted⟩ := h
    refine ⟨?_, ?_, ?_⟩
    · simp [CompleteType.text, chars_ne_nil]
    · rw [← String.toList_inj, String.toList_join, ← spelled, charsAll_eq_flatMap]
    · rw [List.forall_mem_map]
      intro type member
      rw [CompleteType.text, String.toList_ofList, derives_iff]
      exact ⟨type, rfl, admitted type member⟩

/-- A text is split into the spellings of the types that it is read as. -/
theorem split_ok_iff {grammar : Grammar} {text : String} {elements : List String} :
    grammar.split text = .ok elements ↔
      ∃ types, grammar.read text = .ok types ∧ elements = types.map CompleteType.text := by
  simp [split, eq_comm (a := elements)]

theorem split_iff {grammar : Grammar} {text : String} {elements : List String} :
    grammar.split text = .ok elements ↔
      text.utf8ByteSize ≤ maxLength ∧ grammar.Divides text elements := by
  simp only [split_ok_iff, read_iff, divides_iff]
  constructor
  · intro h
    obtain ⟨types, ⟨short, spelled, admitted⟩, rfl⟩ := h
    exact ⟨short, types, rfl, spelled, admitted⟩
  · intro h
    obtain ⟨short, types, rfl, spelled, admitted⟩ := h
    exact ⟨types, ⟨short, spelled, admitted⟩, rfl⟩

/-- A text has at most one division, whatever its length. -/
theorem divides_unique {grammar : Grammar} {text : String} {elements elements' : List String}
    (h : grammar.Divides text elements) (h' : grammar.Divides text elements') :
    elements = elements' := by
  obtain ⟨types, rfl, spelled⟩ := divides_iff.1 h
  obtain ⟨types', rfl, spelled'⟩ := divides_iff.1 h'
  have same := (Scan.run_initial_iff.2 spelled).symm.trans (Scan.run_initial_iff.2 spelled')
  cases same
  rfl

/-! ## Siblings -/

theorem divides_append {grammar : Grammar} {text text' : String} {elements elements' : List String}
    (h : grammar.Divides text elements) (h' : grammar.Divides text' elements') :
    grammar.Divides (text ++ text') (elements ++ elements') := by
  obtain ⟨nonempty, rfl, derived⟩ := h
  obtain ⟨nonempty', rfl, derived'⟩ := h'
  refine ⟨?_, String.join_append, ?_⟩
  · rw [List.forall_mem_append]
    exact ⟨nonempty, nonempty'⟩
  · rw [List.forall_mem_append]
    exact ⟨derived, derived'⟩

/-- The text of a struct around some texts. -/
def enclosed (text : List Char) : List Char :=
  '(' :: (text ++ [')'])

theorem derives_enclosed_iff {grammar : Grammar} {text : List Char} :
    grammar.Derives (enclosed text) ↔
      ∃ members : List CompleteType, text = charsAll members ∧ members ≠ [] ∧
        (∀ type ∈ members, Shaped grammar.wildcard false type) ∧
        ∀ type ∈ members, ∀ kind, nesting kind type + [Nesting.struct].count kind ≤ kind.limit := by
  rw [derives_iff]
  constructor
  · intro h
    obtain ⟨type, spelled, shaped, limited⟩ := h
    cases type with
    | struct members =>
      rw [chars, enclosed, List.cons.injEq, List.append_cancel_right_eq] at spelled
      rw [Shaped, CompleteType.allShaped_iff] at shaped
      refine ⟨members, spelled.2, shaped.1, shaped.2, fun type member kind => ?_⟩
      have whole := limited kind
      have part := CompleteType.nesting_le_nestingOfAll kind member
      rw [nesting] at whole
      omega
    | basic type =>
      rw [chars, enclosed, List.cons.injEq] at spelled
      exact absurd spelled.2 (by simp)
    | variant => simp [chars, enclosed] at spelled
    | wildcard => simp [chars, enclosed] at spelled
    | array element => simp [chars, enclosed] at spelled
    | entry key value => simp [chars, enclosed] at spelled
  · intro h
    obtain ⟨members, rfl, nonempty, shaped, limited⟩ := h
    refine ⟨.struct members, by rw [chars, enclosed], ?_, fun kind => ?_⟩
    · rw [Shaped, CompleteType.allShaped_iff]
      exact ⟨nonempty, shaped⟩
    · obtain ⟨first, firstMember⟩ := List.exists_mem_of_ne_nil members nonempty
      have room := limited first firstMember kind
      have all : nestingOfAll kind members ≤ kind.limit - [Nesting.struct].count kind := by
        rw [CompleteType.nestingOfAll_le_iff]
        intro type member
        have := limited type member kind
        omega
      rw [nesting]
      omega

/-- Structs may be merged into one: what is nested in one member does not count for another. -/
theorem derives_enclosed_append {grammar : Grammar} {text text' : List Char}
    (h : grammar.Derives (enclosed text)) (h' : grammar.Derives (enclosed text')) :
    grammar.Derives (enclosed (text ++ text')) := by
  rw [derives_enclosed_iff] at h h' ⊢
  obtain ⟨members, rfl, nonempty, shaped, limited⟩ := h
  obtain ⟨members', rfl, -, shaped', limited'⟩ := h'
  refine ⟨members ++ members', (CompleteType.charsAll_append _ _).symm, by simp [nonempty], ?_, ?_⟩
  · exact List.forall_mem_append.2 ⟨shaped, shaped'⟩
  · exact List.forall_mem_append.2 ⟨limited, limited'⟩

/-! ## Positions -/

/-- A text is too long, or it is refused where the reader stands, and the error says where. -/
theorem split_error {grammar : Grammar} {text : String} {error : SignatureError}
    (h : grammar.split text = .error error) :
    maxLength < text.utf8ByteSize ∧ error = .tooLong text.utf8ByteSize maxLength ∨
      ∃ seen rest, text.toList = seen ++ rest ∧
        (∃ scan, Scan.after grammar .initial 0 seen = .ok scan) ∧
        (∀ c, rest.head? = some c →
          ∀ scan, Scan.after grammar .initial 0 (seen ++ [c]) ≠ .ok scan) ∧
        error.Located seen rest := by
  have failed : grammar.read text = .error error := map_error_iff.1 h
  rw [read] at failed
  split at failed
  · rename_i long
    cases failed
    exact .inl ⟨long, rfl⟩
  · exact .inr (Scan.run_located failed)

/-- An error of a split names a character of the text by the position of its first byte. -/
theorem isValid_of_split_error {grammar : Grammar} {text : String} {error : SignatureError}
    {offset : Nat} (h : grammar.split text = .error error) (named : error.offset? = some offset) :
    String.Pos.Raw.IsValid text ⟨offset⟩ ∧ offset < text.utf8ByteSize := by
  rcases split_error h with ⟨-, rfl⟩ | ⟨seen, rest, cut, ⟨scan, reached⟩, -, located⟩
  · cases named
  · obtain ⟨within, inside⟩ := located.offset_le named
    rw [← cut] at inside
    have cut' := (List.take_append_drop offset text.toList).symm
    have ascii : IsAscii (text.toList.take offset) := by
      rw [cut, List.take_append_of_le_length within]
      exact fun c member => Scan.after_ascii reached c (List.mem_of_mem_take member)
    have count : (text.toList.take offset).length = offset := List.length_take_of_le (by omega)
    have left : text.toList.drop offset ≠ [] := by
      rw [ne_eq, List.drop_eq_nil_iff]
      omega
    have boundary := isValid_of_ascii cut' ascii
    have bytes := lt_utf8ByteSize_of_ascii cut' ascii left
    rw [count] at boundary bytes
    exact ⟨boundary, bytes⟩

/-- A text is split exactly if it is short enough and has a division, which is then the result. It
has one division at most. Nesting is counted along paths: texts that are split one by one are split
side by side, and structs can be merged. At every moment the reader stands between two characters
of the text, and every position in an error is that of a character. -/
theorem split_iff_divides (grammar : Grammar) (text : String) :
    (∀ elements, grammar.split text = .ok elements ↔
      text.utf8ByteSize ≤ maxLength ∧ grammar.Divides text elements) ∧
    (∀ elements elements', grammar.Divides text elements → grammar.Divides text elements' →
      elements = elements') ∧
    (∀ text' elements elements', grammar.split text = .ok elements →
      grammar.split text' = .ok elements' → (text ++ text').utf8ByteSize ≤ maxLength →
      grammar.split (text ++ text') = .ok (elements ++ elements')) ∧
    (∀ text', grammar.Derives (enclosed text.toList) → grammar.Derives (enclosed text') →
      grammar.Derives (enclosed (text.toList ++ text'))) ∧
    (∀ seen rest scan, text.toList = seen ++ rest →
      Scan.after grammar .initial 0 seen = .ok scan →
      String.Pos.Raw.IsValid text ⟨seen.length⟩) ∧
    (∀ error offset, grammar.split text = .error error → error.offset? = some offset →
      String.Pos.Raw.IsValid text ⟨offset⟩ ∧ offset < text.utf8ByteSize) := by
  refine ⟨fun _ => split_iff, fun _ _ => divides_unique, ?_, ?_, ?_, ?_⟩
  · intro text' elements elements' h h' short
    rw [split_iff] at h h' ⊢
    exact ⟨short, divides_append h.2 h'.2⟩
  · intro text' h h'
    exact derives_enclosed_append h h'
  · intro seen rest scan cut reached
    exact isValid_of_ascii cut (Scan.after_ascii reached)
  · intro error offset h named
    exact isValid_of_split_error h named

end Grammar

end MessageArgs
