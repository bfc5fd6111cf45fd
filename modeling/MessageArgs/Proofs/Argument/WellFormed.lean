import MessageArgs.Argument.Build
import MessageArgs.Proofs.Outcome
import MessageArgs.Proofs.Signature.Composition

/-!
# Well-formed arguments

`Argument.WellFormed` says that the stored signatures of a tree are those of its contents, that each
of them is one type within the limits, and that entries stand in arrays or alone. One lemma for each
container puts this in terms of types: `wellFormed_array_iff`, `wellFormed_struct_iff` and
`wellFormed_entry_iff`. So the signature of a well-formed argument is one type that arguments store
(`WellFormed.isStored`).

The checked constructors are characterised by `ofItems_iff`, `ofMembers_iff` and `ofPair_iff`. What
they make of well-formed parts is well formed.
-/

namespace MessageArgs

namespace Signature

/-- Exactly one type of those that arguments store. -/
def IsStored (signature : Signature) : Prop :=
  ∃ type, Grammar.stored.read signature.text = .ok [type]

theorem isStored_iff {signature : Signature} :
    signature.IsStored ↔ ∃ type, signature = ofType type ∧ Grammar.stored.Accepts type := by
  constructor
  · intro h
    obtain ⟨type, found⟩ := h
    exact ⟨type, eq_ofType found⟩
  · intro h
    obtain ⟨type, rfl, accepted⟩ := h
    exact ⟨type, Grammar.read_text_iff.2 ⟨rfl, accepted⟩⟩

theorem isStored_ofType {type : CompleteType} (h : (ofType type).IsStored) :
    Grammar.stored.Accepts type := by
  obtain ⟨type', same, accepted⟩ := isStored_iff.1 h
  rw [ofType_inj same]
  exact accepted

end Signature

namespace Argument

open Signature (ofType joined)

/-- Induction over an argument and everything inside it. -/
@[elab_as_elim]
theorem induction {P : Argument → Prop} (scalar : ∀ value, P (.scalar value))
    (array : ∀ element signature items, (∀ item ∈ items, P item) →
      P (.array element signature items))
    (struct : ∀ signature members, (∀ member ∈ members, P member) → P (.struct signature members))
    (dictEntry : ∀ signature key value, P value → P (.dictEntry signature key value))
    (variant : ∀ content, P content → P (.variant content)) : ∀ arg, P arg
  | .scalar value => scalar value
  | .array element signature items =>
    array element signature items fun item _ =>
      induction scalar array struct dictEntry variant item
  | .struct signature members =>
    struct signature members fun member _ =>
      induction scalar array struct dictEntry variant member
  | .dictEntry signature key value =>
    dictEntry signature key value (induction scalar array struct dictEntry variant value)
  | .variant content => variant content (induction scalar array struct dictEntry variant content)

/-- The quick comparison with a text is that of the signature. -/
theorem hasSignature_iff {arg : Argument} {text : String} :
    arg.hasSignature text = true ↔ arg.signature.text = text := by
  cases arg with
  | scalar value =>
    show decide (text.toList = [value.type.code]) = true ↔ String.ofList [value.type.code] = text
    rw [decide_eq_true_eq, ← String.toList_inj, String.toList_ofList, eq_comm]
  | variant content =>
    show decide (text.toList = ['v']) = true ↔ "v" = text
    rw [decide_eq_true_eq, ← String.toList_inj, eq_comm]
    rfl
  | _ => simp [hasSignature, signature]

theorem hasSignature_ofType_iff {arg : Argument} {type : CompleteType} :
    arg.hasSignature type.text = true ↔ arg.signature = ofType type := by
  rw [hasSignature_iff, Signature.eq_iff]
  rfl

/-! ## Well-formedness -/

mutual

/-- Stored signatures are those of the contents, and entries stand in arrays or alone. -/
def WellFormed : Argument → Prop
  | scalar _ => True
  | array element signature items =>
    signature.text = "a" ++ element.text ∧ signature.IsStored ∧
      (∀ item ∈ items, item.signature = element) ∧ AllWellFormed items
  | struct signature members =>
    members ≠ [] ∧ signature.text = "(" ++ joined (members.map Argument.signature) ++ ")" ∧
      signature.IsStored ∧ (∀ member ∈ members, member.tag ≠ .dictEntry) ∧ AllWellFormed members
  | dictEntry signature key value =>
    signature.text = "\x7b" ++ (ofType (.basic key.type)).text ++ value.signature.text ++ "\x7d" ∧
      signature.IsStored ∧ value.tag ≠ .dictEntry ∧ WellFormed value
  | variant content => WellFormed content

/-- Well-formedness of several arguments. -/
def AllWellFormed : List Argument → Prop
  | [] => True
  | arg :: args => WellFormed arg ∧ AllWellFormed args

end

@[simp]
theorem wellFormed_scalar (value : Scalar) : (scalar value).WellFormed := by
  rw [WellFormed]
  trivial

@[simp]
theorem wellFormed_variant_iff {content : Argument} :
    (variant content).WellFormed ↔ content.WellFormed := by
  rw [WellFormed]

@[simp]
theorem allWellFormed_iff {args : List Argument} :
    AllWellFormed args ↔ ∀ arg ∈ args, arg.WellFormed := by
  induction args with
  | nil => simp [AllWellFormed]
  | cons arg args ih => rw [AllWellFormed, ih, List.forall_mem_cons]

/-- The signature of a well-formed argument is one type. -/
theorem WellFormed.isStored {arg : Argument} (h : arg.WellFormed) : arg.signature.IsStored := by
  cases arg with
  | scalar value =>
    exact Signature.isStored_iff.2 ⟨_, rfl, Grammar.accepts_basic _ value.type⟩
  | variant content => exact Signature.isStored_iff.2 ⟨.variant, rfl, Grammar.accepts_variant _⟩
  | array element signature items =>
    rw [WellFormed] at h
    exact h.2.1
  | struct signature members =>
    rw [WellFormed] at h
    exact h.2.2.1
  | dictEntry signature key value =>
    rw [WellFormed] at h
    exact h.2.1

/-- The signature of a well-formed argument begins with the character of its tag. -/
theorem WellFormed.opened {arg : Argument} (h : arg.WellFormed) :
    ∃ rest, arg.signature.text.toList = arg.tag.code :: rest := by
  cases arg with
  | scalar value => exact ⟨[], String.toList_ofList⟩
  | variant content => exact ⟨[], by simp [Argument.signature, Signature.variant, tag, Tag.code]⟩
  | array element signature items =>
    rw [WellFormed] at h
    exact ⟨element.text.toList, by rw [Argument.signature, h.1, String.toList_append]; rfl⟩
  | struct signature members =>
    rw [WellFormed] at h
    rw [Argument.signature, h.2.1, String.toList_append, String.toList_append]
    exact ⟨_, rfl⟩
  | dictEntry signature key value =>
    rw [WellFormed] at h
    rw [Argument.signature, h.1, String.toList_append, String.toList_append, String.toList_append]
    exact ⟨_, rfl⟩

/-- The type of a well-formed argument. -/
theorem WellFormed.typed {arg : Argument} (h : arg.WellFormed) :
    ∃ type, arg.signature = ofType type ∧ Grammar.stored.Accepts type ∧ type.tag = arg.tag := by
  obtain ⟨type, same, accepted⟩ := Signature.isStored_iff.1 h.isStored
  obtain ⟨rest, opened⟩ := h.opened
  obtain ⟨rest', opened'⟩ := type.chars_eq_cons
  rw [same, ofType, CompleteType.text, String.toList_ofList, opened'] at opened
  exact ⟨type, same, accepted, Tag.code_inj (List.cons.inj opened).1⟩

theorem WellFormed.tag_eq {arg : Argument} {type : CompleteType} (h : arg.WellFormed)
    (same : arg.signature = ofType type) : type.tag = arg.tag := by
  obtain ⟨type', same', -, tags⟩ := h.typed
  rw [same] at same'
  rw [Signature.ofType_inj same', tags]

/-- The types of several well-formed arguments. -/
theorem typed_of_forall {args : List Argument} (h : ∀ arg ∈ args, arg.WellFormed) :
    ∃ types : List CompleteType, args.map signature = types.map ofType := by
  induction args with
  | nil => exact ⟨[], rfl⟩
  | cons arg args ih =>
    rw [List.forall_mem_cons] at h
    obtain ⟨type, same, -⟩ := h.1.typed
    obtain ⟨types, others⟩ := ih h.2
    exact ⟨type :: types, by rw [List.map_cons, List.map_cons, same, others]⟩

theorem wellFormed_array_iff {element signature : Signature} {items : List Argument} :
    (array element signature items).WellFormed ↔
      (∃ type, element = ofType type ∧ signature = ofType (.array type) ∧
        Grammar.caller.Accepts (.array type)) ∧
      (∀ item ∈ items, item.signature = element) ∧ ∀ item ∈ items, item.WellFormed := by
  rw [WellFormed, allWellFormed_iff]
  constructor
  · intro h
    obtain ⟨text, stored, uniform, formed⟩ := h
    obtain ⟨type, rfl, accepted⟩ := Signature.isStored_iff.1 stored
    refine ⟨?_, uniform, formed⟩
    have spelled : CompleteType.charsAll [type] = "a".toList ++ element.text.toList := by
      rw [← String.toList_append, ← text, ofType, CompleteType.text, String.toList_ofList,
        CompleteType.charsAll, CompleteType.charsAll, List.append_nil]
    obtain ⟨inside, rest, same, spelling⟩ := Signature.charsAll_eq_array spelled
    cases same
    refine ⟨inside, ?_, rfl, accepted.narrow id (by simp [CompleteType.tag])⟩
    rw [CompleteType.charsAll, CompleteType.charsAll, List.append_nil] at spelling
    rw [ofType, CompleteType.text, ← spelling, String.ofList_toList]
  · intro h
    obtain ⟨⟨type, rfl, rfl, accepted⟩, uniform, formed⟩ := h
    refine ⟨(Signature.array_text type).symm, ?_, uniform, formed⟩
    exact Signature.isStored_iff.2 ⟨_, rfl, accepted.mono id (by simp [Grammar.stored])⟩

theorem wellFormed_struct_iff {signature : Signature} {members : List Argument} :
    (struct signature members).WellFormed ↔
      (∃ types : List CompleteType, members.map Argument.signature = types.map ofType ∧
        signature = ofType (.struct types) ∧ Grammar.caller.Accepts (.struct types)) ∧
      ∀ member ∈ members, member.WellFormed := by
  rw [WellFormed, allWellFormed_iff]
  constructor
  · intro h
    obtain ⟨-, text, stored, -, formed⟩ := h
    obtain ⟨types, same⟩ := typed_of_forall formed
    rw [same, Signature.struct_text] at text
    have spelled : signature = ofType (.struct types) := Signature.eq_iff.2 text
    subst spelled
    have accepted := Signature.isStored_ofType stored
    exact ⟨⟨types, same, rfl, accepted.narrow id (by simp [CompleteType.tag])⟩, formed⟩
  · intro h
    obtain ⟨⟨types, same, rfl, accepted⟩, formed⟩ := h
    refine ⟨?_, ?_, ?_, ?_, formed⟩
    · intro h
      subst h
      have shaped := accepted.1.1
      rw [List.map_nil, eq_comm, List.map_eq_nil_iff] at same
      rw [CompleteType.Shaped] at shaped
      exact shaped.1 same
    · rw [same, Signature.struct_text]
      rfl
    · exact Signature.isStored_iff.2 ⟨_, rfl, accepted.mono id (by simp [Grammar.stored])⟩
    · intro member present
      have listed : member.signature ∈ types.map ofType := same ▸ List.mem_map_of_mem present
      obtain ⟨type, inside, spelled⟩ := List.mem_map.1 listed
      rw [← (formed member present).tag_eq spelled.symm]
      exact (Grammar.accepts_member accepted inside id).tag_ne rfl

theorem wellFormed_entry_iff {signature : Signature} {key : Scalar} {value : Argument} :
    (dictEntry signature key value).WellFormed ↔
      (∃ type, value.signature = ofType type ∧ signature = ofType (.entry key.type type) ∧
        Grammar.stored.Accepts (.entry key.type type)) ∧ value.WellFormed := by
  rw [WellFormed]
  constructor
  · intro h
    obtain ⟨text, stored, -, formed⟩ := h
    obtain ⟨type, same, -⟩ := formed.typed
    rw [same, Signature.entry_text] at text
    have spelled : signature = ofType (.entry key.type type) := Signature.eq_iff.2 text
    subst spelled
    exact ⟨⟨type, same, rfl, Signature.isStored_ofType stored⟩, formed⟩
  · intro h
    obtain ⟨⟨type, same, rfl, accepted⟩, formed⟩ := h
    refine ⟨?_, Signature.isStored_iff.2 ⟨_, rfl, accepted⟩, ?_, formed⟩
    · rw [same, Signature.entry_text]
      rfl
    · have alone : Grammar.caller.Accepts type := Grammar.accepts_value accepted id
      rw [← formed.tag_eq same]
      exact alone.tag_ne rfl

/-! ## Constructors -/

theorem firstMismatch_eq_none_iff {text : String} {args : List Argument} :
    firstMismatch text args = none ↔ ∀ arg ∈ args, arg.signature.text = text := by
  rw [firstMismatch, List.find?_eq_none]
  constructor
  · intro h arg present
    obtain ⟨index, inside, rfl⟩ := List.getElem_of_mem present
    have := h (args[index], index) (List.mem_zipIdx_iff_getElem?.2 (by simp [inside]))
    rw [Bool.not_eq_true, Bool.not_eq_false', hasSignature_iff] at this
    exact this
  · rintro h ⟨arg, index⟩ present
    rw [Bool.not_eq_true, Bool.not_eq_false', hasSignature_iff]
    exact h arg (List.fst_mem_of_mem_zipIdx present)

/-- An array can be made of items exactly when all have the signature given for them. -/
theorem ofItems_iff {element : Signature} {items : List Argument} {arg : Argument} :
    ofItems element items = .ok arg ↔ ∃ signature, Signature.arrayOf element = .ok signature ∧
      (∀ item ∈ items, item.signature = element) ∧ arg = array element signature items := by
  rw [ofItems]
  cases Signature.arrayOf element with
  | error error => simp
  | ok signature =>
    have named : ∀ item : Argument, item.signature = element ↔ item.signature.text = element.text :=
      fun _ => Signature.eq_iff
    simp only [named, ← firstMismatch_eq_none_iff]
    cases firstMismatch element.text items with
    | none => simp [eq_comm]
    | some found => simp

/-- A struct can be made of members exactly when it has a signature. -/
theorem ofMembers_iff {members : List Argument} {arg : Argument} :
    ofMembers members = .ok arg ↔ members ≠ [] ∧
      ∃ stored, Signature.structOf (members.map signature) = .ok stored ∧
        arg = struct stored members := by
  rw [ofMembers]
  cases members with
  | nil => simp
  | cons member members =>
    rw [if_neg (by simp)]
    cases Signature.structOf ((member :: members).map signature) with
    | error error => simp
    | ok stored => simp [eq_comm]

/-- An entry can be made of a key and a value exactly when it has a signature. -/
theorem ofPair_iff {key : Scalar} {value arg : Argument} :
    ofPair key value = .ok arg ↔
      ∃ stored, Signature.dictEntryOf (ofType (.basic key.type)) value.signature = .ok stored ∧
        arg = dictEntry stored key value := by
  rw [ofPair]
  cases Signature.dictEntryOf (ofType (.basic key.type)) value.signature with
  | error error => simp
  | ok signature => simp [eq_comm]

/-- The checked constructors make what is well formed. -/
theorem WellFormed.ofItems_eq {element signature : Signature} {items : List Argument}
    (h : (array element signature items).WellFormed) :
    ofItems element items = .ok (array element signature items) := by
  obtain ⟨composed, uniform, -⟩ := wellFormed_array_iff.1 h
  exact ofItems_iff.2 ⟨signature, Signature.arrayOf_iff.2 composed, uniform, rfl⟩

theorem WellFormed.ofMembers_eq {signature : Signature} {members : List Argument}
    (h : (struct signature members).WellFormed) :
    ofMembers members = .ok (struct signature members) := by
  obtain ⟨⟨types, same, rfl, accepted⟩, -⟩ := wellFormed_struct_iff.1 h
  have present : members ≠ [] := by
    rw [WellFormed] at h
    exact h.1
  refine ofMembers_iff.2 ⟨present, _, ?_, rfl⟩
  rw [same]
  exact Signature.structOf_iff.2 ⟨rfl, accepted⟩

theorem WellFormed.ofPair_eq {signature : Signature} {key : Scalar} {value : Argument}
    (h : (dictEntry signature key value).WellFormed) :
    ofPair key value = .ok (dictEntry signature key value) := by
  obtain ⟨⟨type, same, rfl, accepted⟩, -⟩ := wellFormed_entry_iff.1 h
  refine ofPair_iff.2 ⟨_, ?_, rfl⟩
  rw [same]
  exact Signature.dictEntryOf_iff.2 ⟨rfl, accepted⟩

theorem ofItems_wellFormed {element : Signature} {items : List Argument} {arg : Argument}
    (h : ofItems element items = .ok arg) (formed : ∀ item ∈ items, item.WellFormed) :
    arg.WellFormed := by
  obtain ⟨signature, composed, uniform, rfl⟩ := ofItems_iff.1 h
  exact wellFormed_array_iff.2 ⟨Signature.arrayOf_iff.1 composed, uniform, formed⟩

theorem ofUniformItems_wellFormed {items : List Argument} {arg : Argument}
    (h : ofUniformItems items = .ok arg) (formed : ∀ item ∈ items, item.WellFormed) :
    arg.WellFormed := by
  cases items with
  | nil => cases h
  | cons first rest => exact ofItems_wellFormed h formed

theorem ofMembers_wellFormed {members : List Argument} {arg : Argument}
    (h : ofMembers members = .ok arg) (formed : ∀ member ∈ members, member.WellFormed) :
    arg.WellFormed := by
  obtain ⟨-, stored, composed, rfl⟩ := ofMembers_iff.1 h
  obtain ⟨types, same⟩ := typed_of_forall formed
  rw [same] at composed
  exact wellFormed_struct_iff.2 ⟨⟨types, same, Signature.structOf_iff.1 composed⟩, formed⟩

theorem ofMembersAs_wellFormed {signatures : List Signature} {members : List Argument}
    {arg : Argument} (h : ofMembersAs signatures members = .ok arg)
    (formed : ∀ member ∈ members, member.WellFormed) : arg.WellFormed := by
  rw [ofMembersAs] at h
  split at h
  · cases h
  · split at h
    · cases h
    · exact ofMembers_wellFormed h formed

theorem ofPair_wellFormed {key : Scalar} {value arg : Argument} (h : ofPair key value = .ok arg)
    (formed : value.WellFormed) : arg.WellFormed := by
  obtain ⟨signature, composed, rfl⟩ := ofPair_iff.1 h
  obtain ⟨type, same, -⟩ := formed.typed
  rw [same] at composed
  exact wellFormed_entry_iff.2 ⟨⟨type, same, Signature.dictEntryOf_iff.1 composed⟩, formed⟩

theorem ofEntry_wellFormed {key value arg : Argument} (h : ofEntry key value = .ok arg)
    (formed : value.WellFormed) : arg.WellFormed := by
  cases key with
  | scalar key => exact ofPair_wellFormed h formed
  | _ => cases h

end Argument

end MessageArgs
