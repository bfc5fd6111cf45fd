import MessageArgs.Proofs.Signature.Split
import MessageArgs.Signature.Basic

/-!
# Composing signatures

What the helpers do that make signatures out of signatures, on signatures that spell complete
types. Cutting by brackets agrees with the spelling of types (`first_chars`), so a spelling names
its type (`chars_inj`), and "is a single type" means what it says (`isSingle_ofType`).

`Grammar.Accepts` says that a type on its own is a signature. The three helpers succeed exactly
when the type that they build is accepted: `arrayOf_iff`, `structOf_iff` and `dictEntryOf_iff`.
The parts of an accepted type are accepted (`accepts_element`, `accepts_member`, `accepts_value`),
and those of a type that a caller may name may be named as well (`Accepts.element`,
`Accepts.member`, `Accepts.content`).
-/

namespace MessageArgs

open MessageArgs.CompleteType (chars chars_ne_nil charsAll nesting nestingOfAll Shaped)

@[simp]
theorem Tag.ofCode?_code (tag : Tag) : ofCode? tag.code = some tag := by
  cases tag with
  | basic type => cases type <;> rfl
  | _ => rfl

theorem Tag.code_inj {tag tag' : Tag} (h : tag.code = tag'.code) : tag = tag' := by
  have := congrArg ofCode? h
  rw [ofCode?_code, ofCode?_code] at this
  exact Option.some.inj this

namespace Splitter

/-! ## Cutting by brackets -/

/-- Adds some characters in front of the first of two parts. -/
def prepend (text : List Char) (parts : List Char × List Char) : List Char × List Char :=
  (text ++ parts.1, parts.2)

theorem closeBrackets_opening {c : Char} (h : isOpening c = true) (depth : Nat)
    (rest : List Char) :
    closeBrackets depth (c :: rest) = consFst c (closeBrackets (depth + 1) rest) := by
  rw [closeBrackets, if_pos h]

theorem closeBrackets_closing {c : Char} (opening : isOpening c = false)
    (h : isClosing c = true) (depth : Nat) (rest : List Char) :
    closeBrackets (depth + 1) (c :: rest) = consFst c (closeBrackets depth rest) := by
  rw [closeBrackets, if_neg (by simp [opening]), if_pos h, if_neg (by omega),
    Nat.add_sub_cancel]

theorem closeBrackets_plain {c : Char} (opening : isOpening c = false)
    (closing : isClosing c = false) (depth : Nat) (rest : List Char) :
    closeBrackets depth (c :: rest) = consFst c (closeBrackets depth rest) := by
  rw [closeBrackets, if_neg (by simp [opening]), if_neg (by simp [closing])]

mutual

/-- Every bracket of a spelling is closed in it, so it passes as a whole. -/
theorem closeBrackets_chars : (type : CompleteType) → (depth : Nat) → (rest : List Char) →
    closeBrackets depth (type.chars ++ rest) = prepend type.chars (closeBrackets depth rest)
  | .basic type, depth, rest =>
    closeBrackets_plain (isOpening_code type) (isClosing_code type) depth rest
  | .variant, depth, rest => closeBrackets_plain rfl rfl depth rest
  | .wildcard, depth, rest => closeBrackets_plain rfl rfl depth rest
  | .array element, depth, rest => by
    rw [chars, List.cons_append, closeBrackets_plain rfl rfl, closeBrackets_chars element]
    rfl
  | .struct members, depth, rest => by
    rw [chars, List.cons_append, List.append_assoc, List.singleton_append,
      closeBrackets_opening rfl, closeBrackets_charsAll members, closeBrackets_closing rfl rfl]
    simp [consFst, prepend]
  | .entry key value, depth, rest => by
    rw [chars, List.cons_append, List.cons_append, List.append_assoc, List.singleton_append,
      closeBrackets_opening rfl, closeBrackets_plain (isOpening_code key) (isClosing_code key),
      closeBrackets_chars value, closeBrackets_closing rfl rfl]
    simp [consFst, prepend]

theorem closeBrackets_charsAll : (types : List CompleteType) → (depth : Nat) →
    (rest : List Char) →
    closeBrackets depth (charsAll types ++ rest) =
      prepend (charsAll types) (closeBrackets depth rest)
  | [], _, _ => rfl
  | type :: types, depth, rest => by
    rw [charsAll, List.append_assoc, closeBrackets_chars type, closeBrackets_charsAll types]
    simp [prepend]

end

theorem closeBrackets_last {c : Char} (opening : isOpening c = false) (h : isClosing c = true)
    (rest : List Char) : closeBrackets 0 (c :: rest) = ([c], rest) := by
  rw [closeBrackets, if_neg (by simp [opening]), if_pos h, if_pos rfl]

theorem first_opening {c : Char} (h : isOpening c = true) (rest : List Char) :
    first (c :: rest) = consFst c (closeBrackets 0 rest) := by
  have other : c ≠ 'a' := by
    intro same
    subst same
    cases h
  rw [first, if_neg other, if_pos h]

/-- The first element of a text that begins with the spelling of a type is that spelling. -/
@[simp]
theorem first_chars : (type : CompleteType) → (rest : List Char) →
    first (type.chars ++ rest) = (type.chars, rest)
  | .basic type, _ => by cases type <;> rfl
  | .variant, _ => rfl
  | .wildcard, _ => rfl
  | .array element, rest => by
    rw [chars, List.cons_append, first, if_pos rfl, first_chars element]
    rfl
  | .struct members, rest => by
    rw [chars, List.cons_append, List.append_assoc, List.singleton_append, first_opening rfl,
      closeBrackets_charsAll members, closeBrackets_last rfl rfl]
    rfl
  | .entry key value, rest => by
    rw [chars, List.cons_append, List.cons_append, List.append_assoc, List.singleton_append,
      first_opening rfl, closeBrackets_plain (isOpening_code key) (isClosing_code key),
      closeBrackets_chars value, closeBrackets_last rfl rfl]
    rfl

theorem pieces_of_ne_nil {text : List Char} (h : text ≠ []) :
    pieces text = (first text).1 :: pieces (first text).2 := by
  cases text with
  | nil => exact absurd rfl h
  | cons c rest => rw [pieces]

/-- A text that spells types is cut into their spellings. -/
theorem pieces_charsAll (types : List CompleteType) :
    pieces (charsAll types) = types.map chars := by
  induction types with
  | nil => rw [charsAll, pieces, List.map_nil]
  | cons type types ih =>
    have nonempty : charsAll (type :: types) ≠ [] := by
      rw [charsAll]
      simp [chars_ne_nil]
    rw [pieces_of_ne_nil nonempty, charsAll, first_chars, ih, List.map_cons]

end Splitter

namespace CompleteType

/-! ## Spellings name their types -/

theorem chars_eq_cons (type : CompleteType) : ∃ rest, type.chars = type.tag.code :: rest := by
  cases type <;> exact ⟨_, by rw [chars]; rfl⟩

/-- A spelling begins with the character of its tag. -/
theorem tag_of_spelled {type : CompleteType} {tag : Tag} {text rest : List Char}
    (spelled : tag.code :: text = type.chars ++ rest) : type.tag = tag := by
  obtain ⟨own, opened⟩ := type.chars_eq_cons
  rw [opened, List.cons_append, List.cons.injEq] at spelled
  exact Tag.code_inj spelled.1.symm

theorem tag_eq_of_chars_eq {type type' : CompleteType} (h : type.chars = type'.chars) :
    type.tag = type'.tag := by
  obtain ⟨rest, opened⟩ := type'.chars_eq_cons
  have spelled : type'.tag.code :: rest = type.chars ++ [] := by
    rw [List.append_nil, h, opened]
  exact tag_of_spelled spelled

mutual

/-- A spelling names its type. -/
theorem chars_inj : (type type' : CompleteType) → type.chars = type'.chars → type = type'
  | .basic type, type', h => by
    have tags := tag_eq_of_chars_eq h
    cases type' <;> cases tags
    rfl
  | .variant, type', h => by
    have tags := tag_eq_of_chars_eq h
    cases type' <;> cases tags
    rfl
  | .wildcard, type', h => by
    have tags := tag_eq_of_chars_eq h
    cases type' <;> cases tags
    rfl
  | .array element, type', h => by
    have tags := tag_eq_of_chars_eq h
    cases type' <;> cases tags
    rename_i element'
    rw [chars, chars, List.cons.injEq] at h
    rw [chars_inj element element' h.2]
  | .struct members, type', h => by
    have tags := tag_eq_of_chars_eq h
    cases type' <;> cases tags
    rename_i members'
    rw [chars, chars, List.cons.injEq, List.append_cancel_right_eq] at h
    rw [charsAll_inj members members' h.2]
  | .entry key value, type', h => by
    have tags := tag_eq_of_chars_eq h
    cases type' <;> cases tags
    rename_i key' value'
    rw [chars, chars, List.cons.injEq, List.cons.injEq, List.append_cancel_right_eq] at h
    have keys : Tag.basic key = Tag.basic key' := Tag.code_inj h.2.1
    cases keys
    rw [chars_inj value value' h.2.2]

/-- A text spells one list of types at most. -/
theorem charsAll_inj : (types types' : List CompleteType) → charsAll types = charsAll types' →
    types = types'
  | [], types', h => by
    cases types' with
    | nil => rfl
    | cons type' types' => simp [charsAll, chars_ne_nil] at h
  | type :: types, types', h => by
    cases types' with
    | nil => simp [charsAll, chars_ne_nil] at h
    | cons type' types' =>
      have cut := congrArg Splitter.first h
      rw [charsAll, charsAll, Splitter.first_chars, Splitter.first_chars, Prod.mk.injEq] at cut
      rw [chars_inj type type' cut.1, charsAll_inj types types' cut.2]

end

theorem text_inj {type type' : CompleteType} (h : type.text = type'.text) : type = type' :=
  chars_inj type type' (String.ofList_injective h)

end CompleteType

namespace Grammar

/-! ## Accepted types -/

/-- A type that is a signature on its own. -/
def Accepts (grammar : Grammar) (type : CompleteType) : Prop :=
  grammar.Admits type ∧ type.chars.length ≤ maxLength

theorem parse_iff {grammar : Grammar} {text : String} {signature : Signature} :
    grammar.parse text = .ok signature ↔
      signature = ⟨text⟩ ∧ ∃ types, grammar.read text = .ok types := by
  simp [parse, eq_comm (a := signature), and_comm]

/-- The spelling of a type is read as that type, or not at all. -/
@[simp]
theorem read_text_iff {grammar : Grammar} {type : CompleteType} {types : List CompleteType} :
    grammar.read type.text = .ok types ↔ types = [type] ∧ grammar.Accepts type := by
  rw [read_iff, CompleteType.length_text, CompleteType.text, String.toList_ofList, Accepts]
  have alone := CompleteType.charsAll_singleton type
  constructor
  · intro h
    obtain ⟨short, spelled, admitted⟩ := h
    rw [← alone] at spelled
    cases CompleteType.charsAll_inj _ _ spelled
    exact ⟨rfl, admitted type List.mem_cons_self, short⟩
  · intro h
    obtain ⟨rfl, admitted, short⟩ := h
    exact ⟨short, alone, by simpa using admitted⟩

@[simp]
theorem parse_text_iff {grammar : Grammar} {type : CompleteType} {signature : Signature} :
    grammar.parse type.text = .ok signature ↔
      signature = .ofType type ∧ grammar.Accepts type := by
  rw [parse_iff]
  constructor
  · intro h
    obtain ⟨rfl, types, found⟩ := h
    exact ⟨rfl, (read_text_iff.1 found).2⟩
  · intro h
    obtain ⟨rfl, accepted⟩ := h
    exact ⟨rfl, [type], read_text_iff.2 ⟨rfl, accepted⟩⟩

/-- A text that is read as one type is the spelling of that type. -/
theorem read_single {grammar : Grammar} {text : String} {type : CompleteType}
    (h : grammar.read text = .ok [type]) : text = type.text ∧ grammar.Accepts type := by
  have spelled := (read_iff.1 h).2.1
  rw [CompleteType.charsAll_singleton] at spelled
  have same : text = type.text := by
    rw [CompleteType.text, spelled, String.ofList_toList]
  subst same
  exact ⟨rfl, (read_text_iff.1 h).2⟩

theorem Accepts.mono {grammar wider : Grammar} {type : CompleteType} (h : grammar.Accepts type)
    (wildcard : grammar.wildcard = true → wider.wildcard = true)
    (bareEntry : grammar.bareEntry = true → wider.bareEntry = true) : wider.Accepts type :=
  ⟨h.1.mono wildcard bareEntry, h.2⟩

/-! ## Parts of accepted types -/

theorem accepts_element {grammar wider : Grammar} {element : CompleteType}
    (h : grammar.Accepts (.array element))
    (wildcard : grammar.wildcard = true → wider.wildcard = true)
    (bareEntry : wider.bareEntry = true) : wider.Accepts element := by
  obtain ⟨⟨shaped, limited⟩, short⟩ := h
  rw [Shaped] at shaped
  refine ⟨⟨shaped.mono wildcard element fun _ => bareEntry, fun kind => ?_⟩, ?_⟩
  · have := limited kind
    rw [nesting] at this
    omega
  · rw [chars, List.length_cons] at short
    omega

theorem length_chars_le {type : CompleteType} {types : List CompleteType} (member : type ∈ types) :
    type.chars.length ≤ (charsAll types).length := by
  induction types with
  | nil => cases member
  | cons first rest ih =>
    rw [charsAll, List.length_append]
    rcases List.mem_cons.1 member with rfl | other
    · omega
    · have := ih other
      omega

/-- The members of an accepted struct are accepted, and none of them is an entry. -/
theorem accepts_member {grammar wider : Grammar} {type : CompleteType} {types : List CompleteType}
    (h : grammar.Accepts (.struct types)) (member : type ∈ types)
    (wildcard : grammar.wildcard = true → wider.wildcard = true) : wider.Accepts type := by
  obtain ⟨⟨shaped, limited⟩, short⟩ := h
  rw [Shaped, CompleteType.allShaped_iff] at shaped
  refine ⟨⟨(shaped.2 type member).mono wildcard type (by simp), fun kind => ?_⟩, ?_⟩
  · have := limited kind
    rw [nesting] at this
    exact CompleteType.nestingOfAll_le_iff.1 (by omega) type member
  · have := length_chars_le member
    simp only [chars, List.length_cons, List.length_append] at short
    omega

/-- The value of an accepted entry is accepted, and is no entry. -/
theorem accepts_value {grammar wider : Grammar} {key : BasicType} {value : CompleteType}
    (h : grammar.Accepts (.entry key value))
    (wildcard : grammar.wildcard = true → wider.wildcard = true) : wider.Accepts value := by
  obtain ⟨⟨shaped, limited⟩, short⟩ := h
  rw [Shaped] at shaped
  refine ⟨⟨shaped.2.mono wildcard value (by simp), fun kind => ?_⟩, ?_⟩
  · have := limited kind
    rw [nesting] at this
    omega
  · simp only [chars, List.length_cons, List.length_append] at short
    omega

theorem accepts_basic (grammar : Grammar) (type : BasicType) : grammar.Accepts (.basic type) :=
  ⟨⟨by simp only [Shaped], fun kind => by rw [nesting]; omega⟩, by simp [chars, maxLength]⟩

theorem accepts_variant (grammar : Grammar) : grammar.Accepts .variant :=
  ⟨⟨by simp only [Shaped], fun kind => by rw [nesting]; omega⟩, by simp [chars, maxLength]⟩

/-- What is accepted where entries may not stand alone is no entry. -/
theorem Accepts.tag_ne {grammar : Grammar} {type : CompleteType} (h : grammar.Accepts type)
    (bareEntry : grammar.bareEntry = false) : type.tag ≠ .dictEntry := by
  cases type with
  | entry key value =>
    have shaped := h.1.1
    rw [Shaped, bareEntry] at shaped
    simp at shaped
  | _ => simp [CompleteType.tag]

/-- Whether entries may stand alone matters to entries only. -/
theorem Accepts.narrow {grammar narrower : Grammar} {type : CompleteType}
    (h : grammar.Accepts type) (wildcard : grammar.wildcard = true → narrower.wildcard = true)
    (other : type.tag ≠ .dictEntry) : narrower.Accepts type := by
  refine ⟨⟨?_, h.1.2⟩, h.2⟩
  have shaped : Shaped grammar.wildcard false type := by
    have := h.1.1
    cases type with
    | entry => exact absurd rfl other
    | basic | variant => simp only [Shaped]
    | _ => simpa only [Shaped] using this
  exact shaped.mono wildcard type (by simp)

/-- A type without wildcards is accepted without wildcards. -/
theorem Accepts.resolved {grammar : Grammar} {type : CompleteType} (h : grammar.Accepts type)
    (absent : type.hasWildcard = false) : Grammar.Accepts ⟨false, grammar.bareEntry⟩ type :=
  ⟨⟨h.1.1.resolved type absent, h.1.2⟩, h.2⟩

/-- What is admitted where wildcards are not allowed has none. -/
theorem Admits.hasWildcard_eq {grammar : Grammar} {type : CompleteType} (h : grammar.Admits type)
    (wildcard : grammar.wildcard = false) : type.hasWildcard = false := by
  have shaped := h.1
  rw [wildcard] at shaped
  exact shaped.hasWildcard_eq

theorem Accepts.hasWildcard_eq {grammar : Grammar} {type : CompleteType} (h : grammar.Accepts type)
    (wildcard : grammar.wildcard = false) : type.hasWildcard = false :=
  h.1.hasWildcard_eq wildcard

/-! ## Types that a caller may name -/

section Caller

variable {key : BasicType} {type item : CompleteType} {types : List CompleteType}

theorem Accepts.ne_wildcard (h : caller.Accepts type) : type ≠ .wildcard := by
  intro same
  subst same
  cases h.hasWildcard_eq rfl

/-- The entries of a dictionary are accepted where entries may stand alone. -/
theorem Accepts.entry (h : caller.Accepts (.array (.entry key item))) :
    stored.Accepts (.entry key item) :=
  accepts_element h id rfl

theorem Accepts.content (h : caller.Accepts (.array (.entry key item))) :
    caller.Accepts item :=
  accepts_value h.entry id

theorem Accepts.element (h : caller.Accepts (.array item)) (other : item.tag ≠ .dictEntry) :
    caller.Accepts item :=
  have inside : stored.Accepts item := accepts_element h id rfl
  inside.narrow id other

theorem Accepts.member (h : caller.Accepts (.struct types)) (member : type ∈ types) :
    caller.Accepts type :=
  accepts_member h member id

end Caller

end Grammar

namespace Signature

/-! ## Single types -/

theorem eq_iff {signature signature' : Signature} :
    signature = signature' ↔ signature.text = signature'.text := by
  cases signature
  cases signature'
  simp

/-- A signature that spells types is single if it spells one. -/
theorem isSingle_iff {signature : Signature} {types : List CompleteType}
    (spelled : signature.text.toList = charsAll types) :
    signature.isSingle = true ↔ ∃ type, types = [type] := by
  rw [isSingle, isEmpty, spelled]
  cases types with
  | nil => simp [charsAll]
  | cons type types =>
    rw [charsAll, Splitter.first_chars]
    cases types with
    | nil => simp [charsAll, chars_ne_nil]
    | cons next types => simp [charsAll, chars_ne_nil]

@[simp]
theorem isSingle_ofType (type : CompleteType) : (ofType type).isSingle = true := by
  have spelled : (ofType type).text.toList = charsAll [type] := by
    rw [ofType, CompleteType.text, String.toList_ofList, CompleteType.charsAll_singleton]
  exact (isSingle_iff spelled).2 ⟨type, rfl⟩

@[simp]
theorem requireSingle_iff {signature : Signature} :
    signature.requireSingle = .ok () ↔ signature.isSingle = true := by
  rw [requireSingle]
  split <;> simp_all

theorem ofType_inj {type type' : CompleteType} (h : ofType type = ofType type') : type = type' :=
  CompleteType.text_inj (congrArg text h)

theorem types_ofType {grammar : Grammar} {type : CompleteType} (h : grammar.Accepts type) :
    (ofType type).types = [type] := by
  have wider : Grammar.widest.Accepts type := h.mono (fun _ => rfl) fun _ => rfl
  rw [types, ofType, Grammar.read_text_iff.2 ⟨rfl, wider⟩]

/-- A signature that is read as one type is the one that this type spells. -/
theorem eq_ofType {grammar : Grammar} {signature : Signature} {type : CompleteType}
    (h : grammar.read signature.text = .ok [type]) :
    signature = ofType type ∧ grammar.Accepts type := by
  obtain ⟨spelled, accepted⟩ := Grammar.read_single h
  exact ⟨by rw [ofType, ← spelled], accepted⟩

/-- A text is parsed as a single signature exactly if it is read as one type. -/
theorem parseSingle_iff {text : String} {signature : Signature} :
    parseSingle text = .ok signature ↔
      ∃ type, Grammar.caller.read text = .ok [type] ∧ signature = ⟨text⟩ := by
  rw [parseSingle]
  cases Grammar.caller.read text with
  | error error => simp
  | ok types =>
    dsimp only
    split
    · rename_i single
      obtain ⟨type, rfl⟩ := List.length_eq_one_iff.1 single
      simp [eq_comm]
    · rename_i several
      rw [List.length_eq_one_iff] at several
      simp only [reduceCtorEq, Except.ok.injEq, false_iff]
      rintro ⟨type, rfl, -⟩
      exact several ⟨type, rfl⟩

/-! ## Composition -/

theorem array_text (type : CompleteType) :
    "a" ++ (ofType type).text = (CompleteType.array type).text := by
  rw [ofType, CompleteType.text, CompleteType.text, chars, ← String.toList_inj]
  simp

theorem charsAll_eq_array {types : List CompleteType} {text : List Char}
    (h : charsAll types = "a".toList ++ text) :
    ∃ type rest, types = .array type :: rest ∧ text = charsAll (type :: rest) := by
  cases types with
  | nil => simp [charsAll] at h
  | cons first rest =>
    have tags : first.tag = .array := CompleteType.tag_of_spelled h.symm
    cases first <;> cases tags
    rename_i type
    refine ⟨type, rest, rfl, ?_⟩
    rw [charsAll, chars] at h
    rw [charsAll]
    exact (List.cons.inj h).2.symm

/-- Arrays can be made of single types only, and exactly when the array is accepted. -/
theorem arrayOf_iff {element signature : Signature} :
    arrayOf element = .ok signature ↔ ∃ type, element = ofType type ∧
      signature = ofType (.array type) ∧ Grammar.caller.Accepts (.array type) := by
  constructor
  · intro h
    rw [arrayOf, check_bind_ok_iff, requireSingle_iff] at h
    obtain ⟨single, parsed⟩ := h
    obtain ⟨rfl, types, found⟩ := Grammar.parse_iff.1 parsed
    obtain ⟨short, spelled, admitted⟩ := Grammar.read_iff.1 found
    rw [String.toList_append] at spelled
    obtain ⟨type, rest, rfl, inside⟩ := charsAll_eq_array spelled
    obtain ⟨_, same⟩ := (isSingle_iff inside).1 single
    cases same
    rw [CompleteType.charsAll_singleton] at inside
    have spelling : element = ofType type := by
      rw [ofType, CompleteType.text, ← inside, String.ofList_toList]
    subst spelling
    rw [array_text] at found ⊢
    exact ⟨type, rfl, rfl, (Grammar.read_text_iff.1 found).2⟩
  · intro h
    obtain ⟨type, rfl, rfl, accepted⟩ := h
    simp [arrayOf, array_text, accepted]

theorem joined_ofType (types : List CompleteType) :
    (joined (types.map ofType)).toList = charsAll types := by
  rw [joined, List.map_map, String.toList_join, Grammar.charsAll_eq_flatMap]
  rfl

theorem struct_text (types : List CompleteType) :
    "(" ++ joined (types.map ofType) ++ ")" = (CompleteType.struct types).text := by
  rw [CompleteType.text, chars, ← String.toList_inj, String.toList_append, String.toList_append,
    joined_ofType]
  simp

theorem entry_text (key : BasicType) (value : CompleteType) :
    "\x7b" ++ (ofType (.basic key)).text ++ (ofType value).text ++ "\x7d" =
      (CompleteType.entry key value).text := by
  rw [ofType, ofType, CompleteType.text, CompleteType.text, CompleteType.text, chars, chars,
    ← String.toList_inj]
  simp

/-- A struct can be made of types exactly when it is accepted. -/
theorem structOf_iff {types : List CompleteType} {signature : Signature} :
    structOf (types.map ofType) = .ok signature ↔
      signature = ofType (.struct types) ∧ Grammar.caller.Accepts (.struct types) := by
  simp [structOf, struct_text]

/-- An entry can be made of types exactly when it is accepted where entries may stand alone. -/
theorem dictEntryOf_iff {key : BasicType} {value : CompleteType} {signature : Signature} :
    dictEntryOf (ofType (.basic key)) (ofType value) = .ok signature ↔
      signature = ofType (.entry key value) ∧ Grammar.stored.Accepts (.entry key value) := by
  simp [dictEntryOf, entry_text]

end Signature

end MessageArgs
