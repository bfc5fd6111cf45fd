import MessageArgs.Proofs.Signature.Positions

/-!
# Taking signatures apart

What the accessors of a signature give. They go by the brackets of the text alone, and on a text
that a grammar accepts this comes to the same as reading it: `elements_eq`, `arrayElement?_iff`,
`structMembers?_iff` and `dictEntryParts?_iff` say so in terms of the complete types that are
spelled. `accessors_agree` says it in terms of texts and of the rules of the grammar.
-/

namespace MessageArgs

open MessageArgs.CompleteType (chars charsAll)

namespace Grammar

/-- The same grammar inside of brackets, where no entry may stand. -/
def inside (grammar : Grammar) : Grammar := { grammar with bareEntry := false }

/-- The same grammar behind the `a` of an array, where an entry may stand. -/
def behindArray (grammar : Grammar) : Grammar := { grammar with bareEntry := true }

variable {grammar : Grammar} {text : String} {types : List CompleteType}

theorem derives_chars_iff {type : CompleteType} :
    grammar.Derives type.chars ↔ grammar.Admits type := by
  rw [derives_iff]
  constructor
  · intro h
    obtain ⟨type', spelled, admitted⟩ := h
    rwa [CompleteType.chars_inj type type' spelled]
  · intro admitted
    exact ⟨type, rfl, admitted⟩

/-- A text that is read is one complete type if it is read as one. -/
theorem derives_iff_of_read (read : grammar.read text = .ok types) :
    grammar.Derives text.toList ↔ ∃ type, types = [type] := by
  obtain ⟨-, spelled, admitted⟩ := read_iff.1 read
  constructor
  · intro h
    obtain ⟨type, same, -⟩ := derives_iff.1 h
    refine ⟨type, CompleteType.charsAll_inj _ _ ?_⟩
    rw [spelled, same, CompleteType.charsAll_singleton]
  · rintro ⟨type, rfl⟩
    rw [← spelled, CompleteType.charsAll_singleton, derives_chars_iff]
    exact admitted type List.mem_cons_self

/-- Types that stand side by side in an accepted text are accepted one by one. -/
theorem accepts_of_read (read : grammar.read text = .ok types) :
    ∀ type ∈ types, grammar.Accepts type := by
  obtain ⟨short, spelled, admitted⟩ := read_iff.1 read
  intro type member
  refine ⟨admitted type member, ?_⟩
  have bytes := CompleteType.utf8ByteSize_of_spelled spelled
  have part := length_chars_le member
  omega

theorem parse_ofType {type : CompleteType} (h : grammar.Accepts type) :
    grammar.parse (Signature.ofType type).text = .ok (.ofType type) :=
  parse_text_iff.2 ⟨rfl, h⟩

end Grammar

namespace Signature

variable {signature : Signature} {types : List CompleteType}

/-! ## In terms of types -/

theorem ofPieces_charsAll (types : List CompleteType) :
    ofPieces (charsAll types) = types.map ofType := by
  rw [ofPieces, Splitter.pieces_charsAll, List.map_map]
  rfl

theorem elements_eq (spelled : signature.text.toList = charsAll types) :
    signature.elements = types.map ofType := by
  rw [elements, spelled, ofPieces_charsAll]

theorem elementCount_eq (spelled : signature.text.toList = charsAll types) :
    signature.elementCount = types.length := by
  rw [elementCount, spelled, Splitter.pieces_charsAll, List.length_map]

@[simp]
theorem text_ofType (type : CompleteType) : (ofType type).text.toList = type.chars :=
  String.toList_ofList

theorem eq_ofType_of_spelled {type : CompleteType} (spelled : signature.text.toList = type.chars) :
    signature = ofType type := by
  rw [eq_iff, ← String.toList_inj, text_ofType, spelled]

theorem firstTag?_ofType (type : CompleteType) : (ofType type).firstTag? = some type.tag := by
  obtain ⟨rest, opened⟩ := type.chars_eq_cons
  rw [firstTag?, text_ofType, opened]
  exact Tag.ofCode?_code type.tag

/-- The accessors for one kind of type ask for the tag and for a single type. -/
theorem access_iff {α : Type} {tag : Tag} {result part : α}
    (spelled : signature.text.toList = charsAll types) :
    (if signature.firstTag? = some tag && signature.isSingle then some result else none) =
        some part ↔
      (∃ type, types = [type] ∧ type.tag = tag) ∧ result = part := by
  have asked : (decide (signature.firstTag? = some tag) && signature.isSingle) = true ↔
      ∃ type, types = [type] ∧ type.tag = tag := by
    rw [Bool.and_eq_true, decide_eq_true_eq, isSingle_iff spelled, ← exists_and_left]
    refine exists_congr fun type => ?_
    rw [and_comm]
    refine and_congr_right ?_
    rintro rfl
    rw [CompleteType.charsAll_singleton] at spelled
    rw [eq_ofType_of_spelled spelled, firstTag?_ofType, Option.some.injEq]
  rw [← asked]
  split
  · rename_i fits
    rw [Option.some.injEq, and_iff_right fits]
  · rename_i unfit
    simp [unfit]

/-- The accessor for arrays. -/
theorem arrayElement?_iff (spelled : signature.text.toList = charsAll types) {part : Signature} :
    signature.arrayElement? = some part ↔
      ∃ element, types = [.array element] ∧ part = ofType element := by
  have behind : ∀ element, types = [.array element] →
      (⟨String.ofList (signature.text.toList.drop 1)⟩ : Signature) = ofType element := by
    rintro element rfl
    rw [spelled, CompleteType.charsAll_singleton, chars]
    rfl
  rw [arrayElement?, access_iff spelled]
  constructor
  · rintro ⟨⟨type, same, tagged⟩, rfl⟩
    cases type <;> cases tagged
    exact ⟨_, same, behind _ same⟩
  · rintro ⟨element, same, rfl⟩
    exact ⟨⟨_, same, rfl⟩, behind element same⟩

/-- The accessor for structs. -/
theorem structMembers?_iff (spelled : signature.text.toList = charsAll types)
    {parts : List Signature} :
    signature.structMembers? = some parts ↔
      ∃ members, types = [.struct members] ∧ parts = members.map ofType := by
  have between : ∀ members, types = [.struct members] →
      ofPieces signature.inner = members.map ofType := by
    rintro members rfl
    rw [inner, spelled, CompleteType.charsAll_singleton, chars, List.drop_one, List.tail_cons,
      List.dropLast_concat, ofPieces_charsAll]
  rw [structMembers?, access_iff spelled]
  constructor
  · rintro ⟨⟨type, same, tagged⟩, rfl⟩
    cases type <;> cases tagged
    exact ⟨_, same, between _ same⟩
  · rintro ⟨members, same, rfl⟩
    exact ⟨⟨_, same, rfl⟩, between members same⟩

/-- The accessor for entries. -/
theorem dictEntryParts?_iff (spelled : signature.text.toList = charsAll types)
    {first second : Signature} :
    signature.dictEntryParts? = some (first, second) ↔
      ∃ key value, types = [.entry key value] ∧ first = ofType (.basic key) ∧
        second = ofType value := by
  have between : ∀ key value, types = [.entry key value] →
      signature.inner = key.code :: value.chars := by
    rintro key value rfl
    rw [inner, spelled, CompleteType.charsAll_singleton, chars, List.drop_one, List.tail_cons,
      ← List.cons_append, List.dropLast_concat]
  rw [dictEntryParts?, access_iff spelled, Prod.mk.injEq]
  constructor
  · rintro ⟨⟨type, same, tagged⟩, rfl, rfl⟩
    cases type <;> cases tagged
    rw [between _ _ same]
    exact ⟨_, _, same, rfl, rfl⟩
  · rintro ⟨key, value, same, rfl, rfl⟩
    rw [between key value same]
    exact ⟨⟨_, same, rfl⟩, rfl, rfl⟩

/-! ## In terms of texts -/

section Texts

variable {grammar : Grammar}

/-- An array is what `a` and a type or an entry spell. -/
theorem arrayElement?_iff_text (read : grammar.read signature.text = .ok types)
    {part : Signature} : signature.arrayElement? = some part ↔
      grammar.Derives signature.text.toList ∧ signature.text = "a" ++ part.text ∧
        grammar.behindArray.Derives part.text.toList := by
  have spelled := (Grammar.read_iff.1 read).2.1
  rw [arrayElement?_iff spelled.symm, Grammar.derives_iff_of_read read]
  constructor
  · rintro ⟨element, rfl, rfl⟩
    obtain ⟨whole, accepted⟩ := Grammar.read_single read
    have derived : grammar.behindArray.Accepts element := Grammar.accepts_element accepted id rfl
    refine ⟨⟨_, rfl⟩, by rw [array_text, whole], ?_⟩
    rw [text_ofType, Grammar.derives_chars_iff]
    exact derived.1
  · rintro ⟨⟨type, rfl⟩, whole, derived⟩
    obtain ⟨element, behind, -⟩ := Grammar.derives_iff.1 derived
    have same : type.chars = (CompleteType.array element).chars := by
      rw [← CompleteType.charsAll_singleton, spelled, whole, String.toList_append, behind, chars]
      rfl
    cases CompleteType.chars_inj _ _ same
    exact ⟨element, rfl, eq_ofType_of_spelled behind⟩

/-- A struct is what one or more elements spell in brackets, and it has no other members. -/
theorem structMembers?_iff_text (read : grammar.read signature.text = .ok types)
    {parts : List Signature} : signature.structMembers? = some parts ↔
      grammar.Derives signature.text.toList ∧ ∃ between, signature.text = "(" ++ between ++ ")" ∧
        grammar.inside.Divides between (parts.map text) := by
  have spelled := (Grammar.read_iff.1 read).2.1
  rw [structMembers?_iff spelled.symm, Grammar.derives_iff_of_read read]
  constructor
  · rintro ⟨members, rfl, rfl⟩
    obtain ⟨whole, accepted⟩ := Grammar.read_single read
    refine ⟨⟨_, rfl⟩, joined (members.map ofType), by rw [struct_text, whole], ?_⟩
    rw [Grammar.divides_iff]
    refine ⟨members, by rw [List.map_map]; rfl, (joined_ofType members).symm, ?_⟩
    intro type member
    have part : grammar.inside.Accepts type := Grammar.accepts_member accepted member id
    exact part.1
  · rintro ⟨⟨type, rfl⟩, between, whole, divided⟩
    obtain ⟨members, divided, all, -⟩ := Grammar.divides_iff.1 divided
    have same : type.chars = (CompleteType.struct members).chars := by
      rw [← CompleteType.charsAll_singleton, spelled, whole, String.toList_append,
        String.toList_append, ← all, chars]
      rfl
    cases CompleteType.chars_inj _ _ same
    refine ⟨members, rfl, ?_⟩
    have texts : parts.map text = (members.map ofType).map text := by
      rw [divided, List.map_map]
      rfl
    exact (List.map_inj_right fun _ _ => eq_iff.2).1 texts

/-- An entry is what the character of a basic type and an element spell in braces. -/
theorem dictEntryParts?_iff_text (read : grammar.read signature.text = .ok types)
    {first second : Signature} : signature.dictEntryParts? = some (first, second) ↔
      grammar.Derives signature.text.toList ∧
        signature.text = "\x7b" ++ first.text ++ second.text ++ "\x7d" ∧
        (∃ key, first = ofType (.basic key)) ∧ grammar.inside.Derives second.text.toList := by
  have spelled := (Grammar.read_iff.1 read).2.1
  rw [dictEntryParts?_iff spelled.symm, Grammar.derives_iff_of_read read]
  constructor
  · rintro ⟨key, value, rfl, rfl, rfl⟩
    obtain ⟨whole, accepted⟩ := Grammar.read_single read
    have derived : grammar.inside.Accepts value := Grammar.accepts_value accepted id
    refine ⟨⟨_, rfl⟩, by rw [entry_text, whole], ⟨key, rfl⟩, ?_⟩
    rw [text_ofType, Grammar.derives_chars_iff]
    exact derived.1
  · rintro ⟨⟨type, rfl⟩, whole, ⟨key, rfl⟩, derived⟩
    obtain ⟨value, behind, -⟩ := Grammar.derives_iff.1 derived
    cases eq_ofType_of_spelled behind
    have same : type.chars = (CompleteType.entry key value).chars := by
      rw [← CompleteType.charsAll_singleton, spelled, whole, entry_text, CompleteType.text,
        String.toList_ofList]
    cases CompleteType.chars_inj _ _ same
    exact ⟨key, value, rfl, rfl, rfl⟩

/-- The signatures that the accessors give. -/
def parts (signature : Signature) : List Signature :=
  signature.elements ++ signature.arrayElement?.toList ++ signature.structMembers?.getD [] ++
    signature.dictEntryParts?.toList.flatMap fun entry => [entry.1, entry.2]

/-- The accessors give accepted types only; entries may be among them. -/
theorem parts_accepted (read : grammar.read signature.text = .ok types) :
    ∀ part ∈ signature.parts, ∃ type, part = ofType type ∧ grammar.behindArray.Accepts type := by
  have spelled := (Grammar.read_iff.1 read).2.1.symm
  have accepted := Grammar.accepts_of_read read
  have whole : ∀ {type}, types = [type] → grammar.Accepts type := by
    rintro type rfl
    exact accepted type List.mem_cons_self
  intro part member
  rw [parts, List.mem_append, List.mem_append, List.mem_append] at member
  rcases member with ((element | array) | struct) | entry
  · rw [elements_eq spelled, List.mem_map] at element
    obtain ⟨type, member, rfl⟩ := element
    exact ⟨type, rfl, (accepted type member).mono id fun _ => rfl⟩
  · rw [Option.mem_toList, arrayElement?_iff spelled] at array
    obtain ⟨element, single, rfl⟩ := array
    exact ⟨element, rfl, Grammar.accepts_element (whole single) id rfl⟩
  · cases found : signature.structMembers? with
    | none => simp [found] at struct
    | some given =>
      obtain ⟨members, single, rfl⟩ := (structMembers?_iff spelled).1 found
      rw [found, Option.getD_some, List.mem_map] at struct
      obtain ⟨type, member, rfl⟩ := struct
      exact ⟨type, rfl, Grammar.accepts_member (whole single) member id⟩
  · rw [List.mem_flatMap] at entry
    obtain ⟨⟨first, second⟩, found, member⟩ := entry
    rw [Option.mem_toList, dictEntryParts?_iff spelled] at found
    obtain ⟨key, value, single, rfl, rfl⟩ := found
    rw [List.mem_cons, List.mem_singleton] at member
    rcases member with rfl | rfl
    · exact ⟨_, rfl, Grammar.accepts_basic _ key⟩
    · exact ⟨value, rfl, Grammar.accepts_value (whole single) id⟩

/-- A text that a grammar accepts, taken apart by its brackets. The elements are the texts into
which the widest grammar splits it, and there is one of them exactly if it is a single type. The
other accessors give the parts of an array, of a struct or of an entry, and only then. All parts are
signatures again: the widest grammar accepts them, and so does the grammar of the text, unless it
has no place for a bare entry. The same cuts are found by a loop over positions, which moves on in
each round and never past the end. -/
theorem accessors_agree (accepted : grammar.parse signature.text = .ok signature) :
    Grammar.widest.split signature.text = .ok (signature.elements.map text) ∧
    signature.elementCount = signature.elements.length ∧
    (signature.isSingle = true ↔ signature.elements.length = 1) ∧
    (∀ part, signature.arrayElement? = some part ↔
      grammar.Derives signature.text.toList ∧ signature.text = "a" ++ part.text ∧
        grammar.behindArray.Derives part.text.toList) ∧
    (∀ parts, signature.structMembers? = some parts ↔
      grammar.Derives signature.text.toList ∧ ∃ between, signature.text = "(" ++ between ++ ")" ∧
        grammar.inside.Divides between (parts.map text)) ∧
    (∀ first second, signature.dictEntryParts? = some (first, second) ↔
      grammar.Derives signature.text.toList ∧
        signature.text = "\x7b" ++ first.text ++ second.text ++ "\x7d" ∧
        (∃ key, first = ofType (.basic key)) ∧ grammar.inside.Derives second.text.toList) ∧
    (∀ part ∈ signature.parts, Grammar.widest.parse part.text = .ok part ∧
      (grammar.bareEntry = true ∨ part.firstTag? ≠ some .dictEntry →
        grammar.parse part.text = .ok part)) ∧
    (Splitter.slices signature.text.toList 0).map String.ofList = signature.elements.map text ∧
    ∀ pos < signature.text.toList.length,
      pos < Splitter.elementStop signature.text.toList pos ∧
        Splitter.elementStop signature.text.toList pos ≤ signature.text.toList.length := by
  obtain ⟨-, types, read⟩ := Grammar.parse_iff.1 accepted
  have spelled := (Grammar.read_iff.1 read).2.1.symm
  have elements := elements_eq spelled
  have texts : signature.elements.map text = types.map CompleteType.text := by
    rw [elements, List.map_map]
    rfl
  refine ⟨?_, ?_, ?_, fun _ => arrayElement?_iff_text read, fun _ => structMembers?_iff_text read,
    fun _ _ => dictEntryParts?_iff_text read, ?_, ?_, fun _ => Splitter.elementStop_bounds⟩
  · have wide : Grammar.widest.read signature.text = .ok types :=
      Grammar.read_mono read (fun _ => rfl) fun _ => rfl
    exact Grammar.split_ok_iff.2 ⟨types, wide, texts⟩
  · rw [elementCount_eq spelled, elements, List.length_map]
  · rw [isSingle_iff spelled, elements, List.length_map, List.length_eq_one_iff]
  · intro part member
    obtain ⟨type, rfl, accepted⟩ := parts_accepted read part member
    refine ⟨Grammar.parse_ofType (accepted.mono (fun _ => rfl) fun _ => rfl), ?_⟩
    rw [firstTag?_ofType, ne_eq, Option.some.injEq]
    rintro (bare | other)
    · exact Grammar.parse_ofType (accepted.mono id fun _ => bare)
    · exact Grammar.parse_ofType (accepted.narrow id other)
  · rw [Splitter.slices_eq, List.drop_zero, spelled, Splitter.pieces_charsAll, texts, List.map_map]
    rfl

/-- The element of a dictionary is an entry, which stands alone in the widest grammar only. -/
theorem accessors_agree_entry :
    Grammar.caller.withWildcard.parse "a\x7bs(v*)\x7d" = .ok ⟨"a\x7bs(v*)\x7d"⟩ ∧
      arrayElement? ⟨"a\x7bs(v*)\x7d"⟩ = some ⟨"\x7bs(v*)\x7d"⟩ ∧
      Grammar.widest.parse "\x7bs(v*)\x7d" = .ok ⟨"\x7bs(v*)\x7d"⟩ ∧
      Grammar.caller.withWildcard.parse "\x7bs(v*)\x7d" = .error (.entryOutsideArray 0) := by
  have accepted :
      Grammar.caller.withWildcard.parse "a\x7bs(v*)\x7d" = .ok ⟨"a\x7bs(v*)\x7d"⟩ := rfl
  have given : arrayElement? ⟨"a\x7bs(v*)\x7d"⟩ = some ⟨"\x7bs(v*)\x7d"⟩ := rfl
  have member : (⟨"\x7bs(v*)\x7d"⟩ : Signature) ∈ parts ⟨"a\x7bs(v*)\x7d"⟩ := by
    rw [parts, given]
    simp
  obtain ⟨-, -, -, -, -, -, again, -⟩ := accessors_agree accepted
  exact ⟨accepted, given, (again _ member).1, rfl⟩

end Texts

end Signature

end MessageArgs
