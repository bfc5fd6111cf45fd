import MessageArgs.Proofs.Outcome
import MessageArgs.Proofs.Signature.Accessors

/-!
# Signatures and their parts

Composing signatures and taking them apart undo each other. Composition glues texts together and
reads the result again, so it could in principle be read at other boundaries than those between the
parts. Since a text spells one list of types at most, it never is: `arrayOf_iff_fits`,
`structOf_iff_fits` and `dictEntryOf_iff_fits` say for any signatures that arguments store when a
composition succeeds, and that it is then the signature of the types of the parts. The key of an
entry is not checked on its own; that it must be one basic type comes out of the text as a whole
(`charsAll_eq_entry`).
-/

namespace MessageArgs

open MessageArgs.CompleteType (chars charsAll nesting Shaped)

namespace CompleteType

/-- Neither the spelling of a type nor the nesting on a path through it exceeds the limits. -/
def WithinLimits (type : CompleteType) : Prop :=
  type.text.utf8ByteSize ≤ maxLength ∧
    ∀ path ∈ type.paths, path.count .array ≤ maxArrays ∧ path.count .struct ≤ maxStructs

/-- What is spelled between the brackets of an entry is its key and its value. Cutting off the first
type ends with the bracket that closes it, which is the last character, so no type follows. -/
theorem charsAll_eq_entry {types types' : List CompleteType}
    (h : charsAll types = '{' :: (charsAll types' ++ ['}'])) :
    ∃ key value, types = [.entry key value] ∧ types' = [.basic key, value] := by
  cases types with
  | nil => simp [charsAll] at h
  | cons first rest =>
    rw [charsAll] at h
    have tags : first.tag = .dictEntry := tag_of_spelled h.symm
    cases first <;> cases tags
    rename_i key value
    have cut := congrArg Splitter.first h
    rw [Splitter.first_chars, Splitter.first_opening rfl, Splitter.closeBrackets_charsAll,
      Splitter.closeBrackets_last rfl rfl, Splitter.consFst, Splitter.prepend, Prod.mk.injEq] at cut
    obtain ⟨whole, nothing⟩ := cut
    have alone : rest = [] := charsAll_inj rest [] (by simpa [charsAll] using nothing)
    rw [chars, List.cons.injEq] at whole
    have inside : charsAll [.basic key, value] = charsAll types' := by
      rw [charsAll, charsAll_singleton, chars, List.singleton_append]
      exact (List.append_left_inj ['}']).1 whole.2
    exact ⟨key, value, by rw [alone], (charsAll_inj _ _ inside).symm⟩

end CompleteType

namespace Grammar

variable {type : CompleteType} {types : List CompleteType}

/-- A type is accepted if the rules derive it within the limits. -/
theorem accepts_iff {grammar : Grammar} :
    grammar.Accepts type ↔
      Shaped grammar.wildcard grammar.bareEntry type ∧ type.WithinLimits := by
  rw [Accepts, Admits, ← nesting_le_limit_iff, CompleteType.WithinLimits,
    CompleteType.length_text]
  constructor
  · rintro ⟨⟨shaped, limited⟩, short⟩
    exact ⟨shaped, short, limited⟩
  · rintro ⟨shaped, short, limited⟩
    exact ⟨⟨shaped, limited⟩, short⟩

theorem accepts_narrow_iff (accepted : stored.Accepts type) :
    caller.Accepts type ↔ type.tag ≠ .dictEntry :=
  ⟨fun narrow => narrow.tag_ne rfl, accepted.narrow id⟩

/-- An array adds one level of arrays to an accepted type and nothing else. -/
theorem accepts_array_iff (accepted : stored.Accepts type) :
    caller.Accepts (.array type) ↔
      (CompleteType.array type).text.utf8ByteSize ≤ maxLength ∧
        ∀ path ∈ (CompleteType.array type).paths, path.count .array ≤ maxArrays := by
  rw [accepts_iff, CompleteType.WithinLimits]
  constructor
  · rintro ⟨-, short, limited⟩
    exact ⟨short, fun path member => (limited path member).1⟩
  · rintro ⟨short, arrays⟩
    have shaped : Shaped false false (.array type) := by
      rw [Shaped]
      exact accepted.1.1
    have structs := (CompleteType.nesting_le_iff .struct (.array type) maxStructs).2
      (accepted.1.2 .struct)
    exact ⟨shaped, short, fun path member => ⟨arrays path member, structs path member⟩⟩

/-- A struct can be made of one or more accepted types that are no entries. -/
theorem accepts_struct_iff (accepted : ∀ type ∈ types, stored.Accepts type) :
    caller.Accepts (.struct types) ↔ types ≠ [] ∧ (∀ type ∈ types, type.tag ≠ .dictEntry) ∧
      (CompleteType.struct types).WithinLimits := by
  have members : (∀ type ∈ types, Shaped false false type) ↔
      ∀ type ∈ types, type.tag ≠ .dictEntry := by
    refine forall₂_congr fun type member => ?_
    rw [← accepts_narrow_iff (accepted type member), accepts_iff,
      and_iff_left (accepts_iff.1 (accepted type member)).2]
    rfl
  rw [accepts_iff, Shaped, CompleteType.allShaped_iff, and_assoc, ← members]
  rfl

/-- An entry can be made of a key and an accepted type that is no entry. -/
theorem accepts_entry_iff (key : BasicType) (accepted : stored.Accepts type) :
    stored.Accepts (.entry key type) ↔
      type.tag ≠ .dictEntry ∧ (CompleteType.entry key type).WithinLimits := by
  rw [← accepts_narrow_iff accepted, accepts_iff, accepts_iff, Shaped,
    and_iff_left (accepts_iff.1 accepted).2]
  exact and_congr_left fun _ => and_iff_right rfl

end Grammar

namespace Signature

variable {signature key value : Signature} {members : List Signature}

/-- A signature that arguments may store: any number of types, entries among them. -/
def Storable (signature : Signature) : Prop :=
  Grammar.stored.parse signature.text = .ok signature

theorem storable_iff : signature.Storable ↔
    ∃ types, Grammar.stored.read signature.text = .ok types := by
  rw [Storable, Grammar.parse_iff, and_iff_right rfl]

@[simp]
theorem storable_ofType_iff {type : CompleteType} :
    (ofType type).Storable ↔ Grammar.stored.Accepts type := by
  rw [Storable, ofType, Grammar.parse_text_iff, ofType, and_iff_right rfl]

/-- A storable signature is single if it is that of a type. -/
theorem Storable.isSingle_iff (storable : signature.Storable) :
    signature.isSingle = true ↔ ∃ type, signature = ofType type := by
  constructor
  · intro single
    obtain ⟨types, read⟩ := storable_iff.1 storable
    obtain ⟨type, rfl⟩ := (Signature.isSingle_iff (Grammar.read_iff.1 read).2.1.symm).1 single
    exact ⟨type, (eq_ofType read).1⟩
  · rintro ⟨type, rfl⟩
    exact isSingle_ofType type

theorem spelled_ofType (type : CompleteType) :
    (ofType type).text.toList = charsAll [type] := by
  rw [text_ofType, CompleteType.charsAll_singleton]

/-- Storable signatures that are single are those of a list of types. -/
theorem exists_types (storable : ∀ member ∈ members, member.Storable)
    (single : ∀ member ∈ members, member.isSingle = true) :
    ∃ types : List CompleteType, members = types.map ofType := by
  induction members with
  | nil => exact ⟨[], rfl⟩
  | cons member members ih =>
    rw [List.forall_mem_cons] at storable single
    obtain ⟨type, rfl⟩ := storable.1.isSingle_iff.1 single.1
    obtain ⟨types, rfl⟩ := ih storable.2 single.2
    exact ⟨type :: types, rfl⟩

/-! ## Composing -/

theorem arrayOf_iff_fits {element : Signature} (storable : element.Storable) :
    arrayOf element = .ok signature ↔ ∃ type, element = ofType type ∧
      signature = ofType (.array type) ∧
      (CompleteType.array type).text.utf8ByteSize ≤ maxLength ∧
      ∀ path ∈ (CompleteType.array type).paths, path.count .array ≤ maxArrays := by
  rw [arrayOf_iff]
  refine exists_congr fun type => and_congr_right ?_
  rintro rfl
  rw [Grammar.accepts_array_iff (storable_ofType_iff.1 storable)]

theorem structOf_iff_fits (storable : ∀ member ∈ members, member.Storable) :
    structOf members = .ok signature ↔ ∃ types, members = types.map ofType ∧
      signature = ofType (.struct types) ∧ types ≠ [] ∧
      (∀ type ∈ types, type.tag ≠ .dictEntry) ∧ (CompleteType.struct types).WithinLimits := by
  have composed : ∀ types : List CompleteType, members = types.map ofType →
      (structOf members = .ok signature ↔ signature = ofType (.struct types) ∧ types ≠ [] ∧
        (∀ type ∈ types, type.tag ≠ .dictEntry) ∧ (CompleteType.struct types).WithinLimits) := by
    rintro types rfl
    have accepted : ∀ type ∈ types, Grammar.stored.Accepts type := fun type member =>
      storable_ofType_iff.1 (storable _ (List.mem_map_of_mem member))
    rw [structOf_iff, Grammar.accepts_struct_iff accepted]
  constructor
  · intro h
    have single : ∀ member ∈ members, member.isSingle = true := by
      simp only [structOf, check_bind_ok_iff] at h
      simpa using h.1
    obtain ⟨types, same⟩ := exists_types storable single
    exact ⟨types, same, (composed types same).1 h⟩
  · rintro ⟨types, same, fits⟩
    exact (composed types same).2 fits

/-- What can be composed with a value to an entry is the signature of a basic type. The text of the
entry is read as a whole, whatever the key is. -/
theorem eq_basic_of_dictEntryOf (keyStorable : key.Storable) (valueStorable : value.Storable)
    (h : dictEntryOf key value = .ok signature) :
    ∃ basic type, key = ofType (.basic basic) ∧ value = ofType type := by
  rw [dictEntryOf, check_bind_ok_iff, requireSingle_iff] at h
  obtain ⟨single, h⟩ := h
  obtain ⟨type, rfl⟩ := valueStorable.isSingle_iff.1 single
  obtain ⟨keys, keyRead⟩ := storable_iff.1 keyStorable
  have keySpelled := (Grammar.read_iff.1 keyRead).2.1
  obtain ⟨-, types, read⟩ := Grammar.parse_iff.1 h
  have spelled := (Grammar.read_iff.1 read).2.1
  rw [String.toList_append, String.toList_append, String.toList_append, ← keySpelled,
    text_ofType, ← CompleteType.charsAll_singleton, List.append_assoc, List.append_assoc,
    ← List.append_assoc (charsAll keys), ← CompleteType.charsAll_append] at spelled
  obtain ⟨basic, inside, -, same⟩ := CompleteType.charsAll_eq_entry spelled
  rw [← List.singleton_append (l := [inside])] at same
  obtain ⟨rfl, -⟩ := List.append_inj' same rfl
  exact ⟨basic, type, (eq_ofType keyRead).1, rfl⟩

theorem dictEntryOf_iff_fits (keyStorable : key.Storable) (valueStorable : value.Storable) :
    dictEntryOf key value = .ok signature ↔ ∃ basic type, key = ofType (.basic basic) ∧
      value = ofType type ∧ signature = ofType (.entry basic type) ∧ type.tag ≠ .dictEntry ∧
      (CompleteType.entry basic type).WithinLimits := by
  have composed : ∀ basic type, key = ofType (.basic basic) → value = ofType type →
      (dictEntryOf key value = .ok signature ↔ signature = ofType (.entry basic type) ∧
        type.tag ≠ .dictEntry ∧ (CompleteType.entry basic type).WithinLimits) := by
    rintro basic type rfl rfl
    rw [dictEntryOf_iff, Grammar.accepts_entry_iff basic (storable_ofType_iff.1 valueStorable)]
  constructor
  · intro h
    obtain ⟨basic, type, keyed, valued⟩ := eq_basic_of_dictEntryOf keyStorable valueStorable h
    exact ⟨basic, type, keyed, valued, (composed basic type keyed valued).1 h⟩
  · rintro ⟨basic, type, keyed, valued, fits⟩
    exact (composed basic type keyed valued).2 fits

/-! ## Taking apart and composing again -/

/-- What is composed has the parts that it is composed of, and no other text than theirs. -/
theorem arrayOf_parts {element : Signature} (h : arrayOf element = .ok signature) :
    signature.text = "a" ++ element.text ∧ signature.arrayElement? = some element := by
  obtain ⟨type, rfl, rfl, -⟩ := arrayOf_iff.1 h
  refine ⟨(array_text type).symm, (arrayElement?_iff (spelled_ofType _)).2 ?_⟩
  exact ⟨type, rfl, rfl⟩

theorem structOf_parts (storable : ∀ member ∈ members, member.Storable)
    (h : structOf members = .ok signature) :
    signature.text = "(" ++ joined members ++ ")" ∧ signature.structMembers? = some members := by
  obtain ⟨types, rfl, rfl, -⟩ := (structOf_iff_fits storable).1 h
  refine ⟨(struct_text types).symm, (structMembers?_iff (spelled_ofType _)).2 ?_⟩
  exact ⟨types, rfl, rfl⟩

theorem dictEntryOf_parts (keyStorable : key.Storable) (valueStorable : value.Storable)
    (h : dictEntryOf key value = .ok signature) :
    signature.text = "\x7b" ++ key.text ++ value.text ++ "\x7d" ∧
      signature.dictEntryParts? = some (key, value) := by
  obtain ⟨basic, type, rfl, rfl, rfl, -⟩ :=
    (dictEntryOf_iff_fits keyStorable valueStorable).1 h
  refine ⟨(entry_text basic type).symm, (dictEntryParts?_iff (spelled_ofType _)).2 ?_⟩
  exact ⟨basic, type, rfl, rfl, rfl⟩

/-- A single signature that begins with the character of a tag is that of a type with the tag. -/
theorem Storable.exists_type (storable : signature.Storable) (tag : Tag)
    (single : signature.isSingle = true)
    (opened : signature.text.toList.head? = some tag.code) :
    ∃ type, signature = ofType type ∧ Grammar.stored.Accepts type ∧ type.tag = tag := by
  obtain ⟨type, rfl⟩ := storable.isSingle_iff.1 single
  obtain ⟨rest, spelled⟩ := type.chars_eq_cons
  rw [text_ofType, spelled, List.head?_cons, Option.some.injEq] at opened
  exact ⟨type, rfl, storable_ofType_iff.1 storable, Tag.code_inj opened⟩

theorem Storable.rebuilt_array (storable : signature.Storable) (single : signature.isSingle = true)
    (opened : signature.text.toList.head? = some 'a') :
    ∃ element, signature.arrayElement? = some element ∧ arrayOf element = .ok signature := by
  obtain ⟨type, rfl, accepted, tagged⟩ := storable.exists_type .array single opened
  cases type <;> cases tagged
  have composed := arrayOf_iff.2 ⟨_, rfl, rfl, accepted.narrow id (by simp [CompleteType.tag])⟩
  exact ⟨_, (arrayOf_parts composed).2, composed⟩

theorem Storable.rebuilt_struct (storable : signature.Storable)
    (single : signature.isSingle = true) (opened : signature.text.toList.head? = some '(') :
    ∃ members, signature.structMembers? = some members ∧ structOf members = .ok signature := by
  obtain ⟨type, rfl, accepted, tagged⟩ := storable.exists_type .struct single opened
  cases type <;> cases tagged
  rename_i types
  have composed := structOf_iff.2 ⟨rfl, accepted.narrow id (by simp [CompleteType.tag])⟩
  refine ⟨types.map ofType, (structOf_parts ?_ composed).2, composed⟩
  rw [List.forall_mem_map]
  exact fun type member => storable_ofType_iff.2 (Grammar.accepts_member accepted member id)

theorem Storable.rebuilt_entry (storable : signature.Storable)
    (single : signature.isSingle = true) (opened : signature.text.toList.head? = some '{') :
    ∃ key value, signature.dictEntryParts? = some (key, value) ∧
      dictEntryOf key value = .ok signature := by
  obtain ⟨type, rfl, accepted, tagged⟩ := storable.exists_type .dictEntry single opened
  cases type <;> cases tagged
  rename_i key type
  have composed := dictEntryOf_iff.2 ⟨rfl, accepted⟩
  have parts := dictEntryOf_parts (storable_ofType_iff.2 (Grammar.accepts_basic _ key))
    (storable_ofType_iff.2 (Grammar.accepts_value accepted id)) composed
  exact ⟨_, _, parts.2, composed⟩

/-- Composing signatures and taking them apart, for signatures that arguments may store. An array
can be made of one type, entries included, a struct of one or more types that are no entries and an
entry of one basic type and one type that is no entry, in each case unless the result is too long
or nests too deeply; nothing else can be composed. What is composed has exactly the parts that it is
composed of. A single array, struct or entry is composed again of the parts that are taken from
it. -/
theorem composition_inverse :
    (∀ element : Signature, element.Storable →
      ((∃ signature, arrayOf element = .ok signature) ↔
        ∃ type, element = ofType type ∧
          (CompleteType.array type).text.utf8ByteSize ≤ maxLength ∧
          ∀ path ∈ (CompleteType.array type).paths, path.count .array ≤ maxArrays) ∧
      ∀ signature, arrayOf element = .ok signature →
        signature.text = "a" ++ element.text ∧ signature.arrayElement? = some element) ∧
    (∀ members : List Signature, (∀ member ∈ members, member.Storable) →
      ((∃ signature, structOf members = .ok signature) ↔
        ∃ types, members = types.map ofType ∧ types ≠ [] ∧
          (∀ type ∈ types, type.tag ≠ .dictEntry) ∧ (CompleteType.struct types).WithinLimits) ∧
      ∀ signature, structOf members = .ok signature →
        signature.text = "(" ++ joined members ++ ")" ∧ signature.structMembers? = some members) ∧
    (∀ key value : Signature, key.Storable → value.Storable →
      ((∃ signature, dictEntryOf key value = .ok signature) ↔
        ∃ basic type, key = ofType (.basic basic) ∧ value = ofType type ∧
          type.tag ≠ .dictEntry ∧ (CompleteType.entry basic type).WithinLimits) ∧
      ∀ signature, dictEntryOf key value = .ok signature →
        signature.text = "\x7b" ++ key.text ++ value.text ++ "\x7d" ∧
          signature.dictEntryParts? = some (key, value)) ∧
    ∀ signature : Signature, signature.Storable → signature.isSingle = true →
      (signature.text.toList.head? = some 'a' → ∃ element,
        signature.arrayElement? = some element ∧ arrayOf element = .ok signature) ∧
      (signature.text.toList.head? = some '(' → ∃ members,
        signature.structMembers? = some members ∧ structOf members = .ok signature) ∧
      (signature.text.toList.head? = some '{' → ∃ key value,
        signature.dictEntryParts? = some (key, value) ∧
          dictEntryOf key value = .ok signature) := by
  refine ⟨fun element storable => ⟨?_, fun _ => arrayOf_parts⟩,
    fun members storable => ⟨?_, fun _ => structOf_parts storable⟩,
    fun key value keyStorable valueStorable =>
      ⟨?_, fun _ => dictEntryOf_parts keyStorable valueStorable⟩,
    fun signature storable single => ⟨storable.rebuilt_array single,
      storable.rebuilt_struct single, storable.rebuilt_entry single⟩⟩
  · simp only [arrayOf_iff_fits storable]
    constructor
    · rintro ⟨-, type, same, -, fits⟩
      exact ⟨type, same, fits⟩
    · rintro ⟨type, same, fits⟩
      exact ⟨_, type, same, rfl, fits⟩
  · simp only [structOf_iff_fits storable]
    constructor
    · rintro ⟨-, types, same, -, fits⟩
      exact ⟨types, same, fits⟩
    · rintro ⟨types, same, fits⟩
      exact ⟨_, types, same, rfl, fits⟩
  · simp only [dictEntryOf_iff_fits keyStorable valueStorable]
    constructor
    · rintro ⟨-, basic, type, keyed, valued, -, fits⟩
      exact ⟨basic, type, keyed, valued, fits⟩
    · rintro ⟨basic, type, keyed, valued, fits⟩
      exact ⟨_, basic, type, keyed, valued, rfl, fits⟩

/-- An entry with a struct as its value; two types make no key, whatever follows them. -/
theorem composition_inverse_entry :
    dictEntryOf ⟨"s"⟩ ⟨"(iv)"⟩ = .ok ⟨"\x7bs(iv)\x7d"⟩ ∧
      dictEntryParts? ⟨"\x7bs(iv)\x7d"⟩ = some (⟨"s"⟩, ⟨"(iv)"⟩) ∧
      (∃ element, arrayElement? ⟨"a\x7bs(iv)\x7d"⟩ = some element ∧
        arrayOf element = .ok ⟨"a\x7bs(iv)\x7d"⟩) ∧
      ¬ ∃ signature, dictEntryOf ⟨"si"⟩ ⟨"v"⟩ = .ok signature := by
  obtain ⟨-, -, entries, again⟩ := composition_inverse
  have composed : dictEntryOf ⟨"s"⟩ ⟨"(iv)"⟩ = .ok ⟨"\x7bs(iv)\x7d"⟩ := rfl
  obtain ⟨-, parts⟩ := entries ⟨"s"⟩ ⟨"(iv)"⟩ rfl rfl
  refine ⟨composed, (parts _ composed).2, (again ⟨"a\x7bs(iv)\x7d"⟩ rfl rfl).1 rfl, ?_⟩
  rw [(entries ⟨"si"⟩ ⟨"v"⟩ rfl rfl).1]
  rintro ⟨basic, type, same, -⟩
  cases basic <;> cases congrArg (fun key => key.text.toList) same

end Signature

end MessageArgs
