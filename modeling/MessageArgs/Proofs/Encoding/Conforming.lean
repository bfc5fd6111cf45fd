import MessageArgs.Proofs.Encoding.WellFormed

/-!
# Conforming values

Which values the encoder takes under a type, and what it makes of them, said without the encoder.
`Conforms` is the condition and `tree` the argument; `encodeAs_iff` proves that encoding a value
succeeds exactly if it conforms and then gives the tree. Everything that the encoder checks once
more about the containers that it has built is true by then, since parts of accepted types are
accepted. The cases are `exact_basic` to `exact_struct`, one for each kind of type.

The depth limit and the signature come in with `encodeSignature_iff_conforms`.
-/

namespace MessageArgs

open Signature (ofType)

namespace Encoding

/-! ## Scalars -/

/-- The atoms that a basic type takes. -/
def Takes (config : CodecConfig) : BasicType → Atom → Prop
  | .byte, .byte _ | .bool, .bool _ | .int16, .int16 _ | .uint16, .uint16 _ | .int32, .int32 _
  | .uint32, .uint32 _ | .int64, .int64 _ | .uint64, .uint64 _ | .double, .double _
  | .double, .single _ | .string, .string _ => True
  | .objectPath, .string s => config.validateObjectPaths = true → ObjectPath.isValid s = true
  | .signature, .string s => ∃ types, Grammar.caller.read s = .ok types
  | _, _ => False

/-- The scalar that an atom is under a basic type that takes it. -/
def scalarOf : BasicType → Atom → Scalar
  | .double, .single x => .double x.widen
  | .objectPath, .string s => .objectPath s
  | .signature, .string s => .signature ⟨s⟩
  | _, .byte n => .byte n
  | _, .bool b => .bool b
  | _, .int16 n => .int16 n
  | _, .uint16 n => .uint16 n
  | _, .int32 n => .int32 n
  | _, .uint32 n => .uint32 n
  | _, .int64 n => .int64 n
  | _, .uint64 n => .uint64 n
  | _, .single x => .double x.widen
  | _, .double x => .double x
  | _, .string s => .string s

theorem encodeScalar_iff {config : CodecConfig} {type : BasicType} {atom : Atom}
    {scalar : Scalar} :
    encodeScalar config type (.atom atom) = .ok scalar ↔
      Takes config type atom ∧ scalar = scalarOf type atom := by
  rw [encodeScalar, Scalar.ofValue]
  cases type with
  | objectPath =>
    cases atom with
    | string s =>
      simp only [Scalar.ofAtom, Takes, scalarOf]
      split
      · rename_i refused
        rw [Bool.and_eq_true, Bool.not_eq_true'] at refused
        simp [refused.1, refused.2]
      · rename_i passed
        rw [Bool.and_eq_true, Bool.not_eq_true', not_and, Bool.not_eq_false] at passed
        rw [Except.ok.injEq, and_iff_right passed]
        exact eq_comm
    | _ => simp [Scalar.ofAtom, Takes]
  | signature =>
    cases atom with
    | string s =>
      simp only [Scalar.ofAtom, Signature.parse, Grammar.parse, Takes, scalarOf]
      cases Grammar.caller.read s with
      | error error => simp [Except.map, Except.mapError]
      | ok types => simp [Except.map, Except.mapError, eq_comm]
    | _ => simp [Scalar.ofAtom, Takes]
  | _ => cases atom <;> simp [Scalar.ofAtom, Takes, scalarOf, eq_comm]

/-- The scalar that a key stands for. -/
def keyScalar (type : BasicType) : Value → Scalar
  | .arg (.scalar name) => name
  | .atom atom => scalarOf type atom
  | _ => .byte 0

/-- The values that stand for a key. A key that is an argument already is a scalar. -/
def ConformsKey (config : CodecConfig) (type : BasicType) : Value → Prop
  | .arg (.scalar name) => name.type = type
  | .atom atom => Takes config type atom
  | _ => False

theorem type_scalarOf {config : CodecConfig} {type : BasicType} {atom : Atom}
    (h : Takes config type atom) : (scalarOf type atom).type = type := by
  cases type <;> cases atom <;> first | rfl | cases h

theorem type_keyScalar {config : CodecConfig} {type : BasicType} {value : Value}
    (h : ConformsKey config type value) : (keyScalar type value).type = type := by
  cases value with
  | atom atom => exact type_scalarOf h
  | arg given =>
    cases given with
    | scalar name => exact h
    | _ => cases h
  | _ => cases h

theorem encodeKey_iff {config : CodecConfig} {type : BasicType} {value : Value} {name : Scalar} :
    encodeKey config type value = .ok name ↔
      ConformsKey config type value ∧ name = keyScalar type value := by
  cases value with
  | atom atom => exact encodeScalar_iff
  | arg given =>
    cases given with
    | scalar given =>
      rw [encodeKey, ConformsKey, keyScalar]
      split
      · rename_i same
        rw [Except.ok.injEq, and_iff_right same]
        exact eq_comm
      · rename_i different
        simp [different]
    | _ => simp [encodeKey, ConformsKey]
  | _ => simp [encodeKey, encodeScalar, Scalar.ofValue, ConformsKey]

/-! ## Conforming -/

/-- The arguments among some values hold contents of one signature. -/
def UniformValues (values : List Value) : Prop :=
  ∃ expected, ∀ given, .arg given ∈ values → given.content.signature = expected

mutual

/-- The values that conform to a type. Any slot but that of a variant also takes an argument of its
own type, and a slot for variants takes any argument and nothing else. -/
def Conforms (config : CodecConfig) : CompleteType → Value → Prop
  | .variant, .arg _ => True
  | .wildcard, .arg _ => True
  | type, .arg given => given.signature = ofType type
  | .basic type, .atom atom => Takes config type atom
  | .array (.entry key element), .map pairs =>
    (∀ pair ∈ pairs, ConformsKey config key pair.1 ∧ Conforms config element pair.2) ∧
      (config.duplicateKeys = .reject →
        (pairs.map fun pair => (keyScalar key pair.1).fingerprint).Nodup)
  | .array (.entry _ _), _ => False
  | .array element, .seq items =>
    (∀ item ∈ items, Conforms config element item) ∧ (element = .variant → UniformValues items)
  | .struct types, .seq items => AllConform config types items
  | _, _ => False

/-- Values that conform to as many types, one by one. -/
def AllConform (config : CodecConfig) : List CompleteType → List Value → Prop
  | [], [] => True
  | type :: types, value :: values => Conforms config type value ∧ AllConform config types values
  | _, _ => False

end

mutual

/-- The argument that a conforming value is under a type; it means nothing for other values. Pairs
with the same key become one entry. -/
def tree : CompleteType → Value → Argument
  | .variant, .arg given => .variant given.content
  | _, .arg given => given
  | .basic type, .atom atom => .scalar (scalarOf type atom)
  | .array (.entry key element), .map pairs =>
    .array (ofType (.entry key element)) (ofType (.array (.entry key element)))
      ((DuplicateKeys.collapse (pairs.map fun pair =>
        ((keyScalar key pair.1).fingerprint,
          .dictEntry (ofType (.entry key element)) (keyScalar key pair.1)
            (tree element pair.2)))).map Prod.snd)
  | .array (.entry _ _), _ => .scalar (.byte 0)
  | .array element, .seq items =>
    .array (ofType element) (ofType (.array element)) (items.map fun item => tree element item)
  | .struct types, .seq items => .struct (ofType (.struct types)) (treeAll types items)
  | _, _ => .scalar (.byte 0)

/-- The arguments that some values are under as many types. -/
def treeAll : List CompleteType → List Value → List Argument
  | type :: types, value :: values => tree type value :: treeAll types values
  | _, _ => []

end

@[simp]
theorem allConform_iff {config : CodecConfig} {types : List CompleteType} {values : List Value} :
    AllConform config types values ↔ types.length = values.length ∧
      ∀ slot ∈ types.zip values, Conforms config slot.1 slot.2 := by
  induction types generalizing values with
  | nil => cases values <;> simp [AllConform]
  | cons type types ih =>
    cases values with
    | nil => simp [AllConform]
    | cons value values =>
      rw [AllConform, ih, List.zip_cons_cons, List.forall_mem_cons, List.length_cons,
        List.length_cons, Nat.add_right_cancel_iff]
      exact and_left_comm

theorem treeAll_eq (types : List CompleteType) (values : List Value) :
    treeAll types values = (types.zip values).map fun slot => tree slot.1 slot.2 := by
  induction types generalizing values with
  | nil => rfl
  | cons type types ih =>
    cases values with
    | nil => rfl
    | cons value values => rw [treeAll, ih, List.zip_cons_cons, List.map_cons]

variable {config : CodecConfig}

theorem conforms_arg_iff {type : CompleteType} {given : Argument} (other : type ≠ .variant)
    (resolved : type ≠ .wildcard) :
    Conforms config type (.arg given) ↔ given.signature = ofType type := by
  cases type with
  | variant => exact absurd rfl other
  | wildcard => exact absurd rfl resolved
  | array element => cases element <;> exact Iff.rfl
  | _ => exact Iff.rfl

theorem tree_arg {type : CompleteType} (given : Argument) (other : type ≠ .variant) :
    tree type (.arg given) = given := by
  cases type with
  | variant => exact absurd rfl other
  | array element => cases element <;> rfl
  | _ => rfl

theorem conforms_seq_iff {element : CompleteType} {items : List Value}
    (other : element.tag ≠ .dictEntry) :
    Conforms config (.array element) (.seq items) ↔
      (∀ item ∈ items, Conforms config element item) ∧
        (element = .variant → UniformValues items) := by
  cases element with
  | entry => exact absurd rfl other
  | _ => exact Iff.rfl

theorem tree_seq {element : CompleteType} (items : List Value) (other : element.tag ≠ .dictEntry) :
    tree (.array element) (.seq items) =
      .array (ofType element) (ofType (.array element)) (items.map (tree element)) := by
  cases element with
  | entry => exact absurd rfl other
  | _ => rfl

theorem not_conforms_array {element : CompleteType} {value : Value}
    (other : element.tag ≠ .dictEntry) (noArg : ∀ given, value ≠ .arg given)
    (noSeq : ∀ items, value ≠ .seq items) : ¬ Conforms config (.array element) value := by
  cases value with
  | arg given => exact absurd rfl (noArg given)
  | seq items => exact absurd rfl (noSeq items)
  | _ =>
    cases element with
    | entry => exact absurd rfl other
    | _ => exact id

/-- A conforming value becomes an argument of its type. -/
theorem signature_tree {type : CompleteType} {value : Value} (h : Conforms config type value)
    (resolved : type ≠ .wildcard) : (tree type value).signature = ofType type := by
  cases value with
  | arg given =>
    by_cases variant : type = .variant
    · subst variant
      rfl
    · rw [tree_arg given variant]
      exact (conforms_arg_iff variant resolved).1 h
  | atom atom =>
    cases type with
    | basic type =>
      show ofType (.basic (scalarOf type atom).type) = ofType (.basic type)
      rw [type_scalarOf h]
    | array element => cases element <;> cases h
    | _ => cases h
  | seq items =>
    cases type with
    | array element => cases element <;> first | rfl | cases h
    | struct types => rfl
    | _ => cases h
  | map pairs =>
    cases type with
    | array element => cases element <;> first | rfl | cases h
    | _ => cases h

/-! ## Encoding -/

/-- Encoding under a type succeeds on the conforming values and gives their trees. -/
def Exact (config : CodecConfig) (type : CompleteType) : Prop :=
  ∀ value arg, encodeAs config type value = .ok arg ↔
    Conforms config type value ∧ arg = tree type value

/-- An entry is made of a pair when its key and its value conform. -/
theorem encodeEntry_conforming_iff {key : BasicType} {element : CompleteType}
    (accepted : Grammar.stored.Accepts (.entry key element))
    (ih : Exact config element) {pair : Value × Value} {keyed : String × Argument} :
    encodeEntry config key element pair = .ok keyed ↔
      (ConformsKey config key pair.1 ∧ Conforms config element pair.2) ∧
        keyed = ((keyScalar key pair.1).fingerprint, .dictEntry (ofType (.entry key element))
          (keyScalar key pair.1) (tree element pair.2)) := by
  have inside : Grammar.caller.Accepts element := Grammar.accepts_value accepted id
  simp only [encodeEntry_iff, encodeKey_iff, ih _ _, Argument.ofPair_iff]
  constructor
  · intro h
    obtain ⟨_, _, ⟨goodKey, rfl⟩, ⟨good, rfl⟩, ⟨signature, composed, made⟩, named⟩ := h
    rw [type_keyScalar goodKey, signature_tree good (inside.ne_wildcard),
      Signature.dictEntryOf_iff] at composed
    rw [composed.1] at made
    exact ⟨⟨goodKey, good⟩, Prod.ext named made⟩
  · intro h
    obtain ⟨⟨goodKey, good⟩, rfl⟩ := h
    refine ⟨_, _, ⟨goodKey, rfl⟩, ⟨good, rfl⟩, ⟨_, ?_, rfl⟩, rfl⟩
    rw [type_keyScalar goodKey, signature_tree good (inside.ne_wildcard),
      Signature.dictEntryOf_iff]
    exact ⟨rfl, accepted⟩

theorem uniformContents_tree_iff {items : List Value}
    (conform : ∀ item ∈ items, Conforms config .variant item) :
    UniformContents (items.map (tree .variant)) ↔ UniformValues items := by
  rw [UniformContents, UniformValues]
  refine exists_congr fun expected => ?_
  rw [List.forall_mem_map]
  constructor
  · intro uniform given member
    exact uniform (.arg given) member
  · intro uniform item member
    have fits := conform item member
    cases item with
    | arg given => exact uniform given member
    | _ => cases fits

theorem signature_treeAll {types : List CompleteType} {values : List Value}
    (conform : AllConform config types values) (resolved : ∀ type ∈ types, type ≠ .wildcard) :
    (treeAll types values).map Argument.signature = types.map ofType := by
  obtain ⟨arity, each⟩ := allConform_iff.1 conform
  have typed : ∀ slot ∈ types.zip values, (tree slot.1 slot.2).signature = ofType slot.1 := by
    rintro ⟨type, value⟩ member
    exact signature_tree (each _ member) (resolved type (List.of_mem_zip member).1)
  calc (treeAll types values).map Argument.signature
      = (types.zip values).map fun slot => (tree slot.1 slot.2).signature := by
        rw [treeAll_eq, List.map_map]
        rfl
    _ = (types.zip values).map fun slot => ofType slot.1 := List.map_congr_left typed
    _ = ((types.zip values).map Prod.fst).map ofType := by
        rw [List.map_map]
        rfl
    _ = types.map ofType := by rw [List.map_fst_zip (by omega)]

/-- A struct is made of members that conform. -/
theorem ofMembers_treeAll_iff {types : List CompleteType} {values : List Value} {arg : Argument}
    (accepted : Grammar.caller.Accepts (.struct types))
    (conform : AllConform config types values) :
    Argument.ofMembers (treeAll types values) = .ok arg ↔
      arg = .struct (ofType (.struct types)) (treeAll types values) := by
  have resolved : ∀ type ∈ types, type ≠ .wildcard := fun type listed =>
    (accepted.member listed).ne_wildcard
  have nonempty : types ≠ [] := by
    have shaped := accepted.1.1
    rw [CompleteType.Shaped] at shaped
    exact shaped.1
  rw [Argument.ofMembers_iff, signature_treeAll conform resolved]
  simp only [Signature.structOf_iff]
  constructor
  · intro h
    obtain ⟨-, _, ⟨rfl, -⟩, rfl⟩ := h
    rfl
  · intro h
    subst h
    refine ⟨?_, _, ⟨rfl, accepted⟩, rfl⟩
    intro empty
    have spelled := signature_treeAll conform resolved
    rw [empty, List.map_nil, eq_comm, List.map_eq_nil_iff] at spelled
    exact nonempty spelled

theorem exact_basic (type : BasicType) : Exact config (.basic type) := by
  intro value arg
  rw [encodeAs_basic_iff]
  constructor
  · intro h
    rcases h with ⟨rfl, same⟩ | ⟨atom, scalar, rfl, encoded, rfl⟩
    · exact ⟨same, rfl⟩
    · obtain ⟨takes, rfl⟩ := encodeScalar_iff.1 encoded
      exact ⟨takes, rfl⟩
  · intro h
    obtain ⟨conforms, rfl⟩ := h
    cases value with
    | arg given => exact Or.inl ⟨rfl, conforms⟩
    | atom atom => exact Or.inr ⟨atom, _, rfl, encodeScalar_iff.2 ⟨conforms, rfl⟩, rfl⟩
    | _ => cases conforms

theorem exact_variant : Exact config .variant := by
  intro value arg
  rw [encodeAs_variant_iff]
  constructor
  · intro h
    obtain ⟨given, rfl, rfl⟩ := h
    exact ⟨trivial, rfl⟩
  · intro h
    obtain ⟨conforms, rfl⟩ := h
    cases value with
    | arg given => exact ⟨given, rfl, rfl⟩
    | _ => cases conforms

/-- The entries that remain are among those that were made, so all of them have the type of the
entry. -/
theorem exact_dictionary {key : BasicType} {element : CompleteType}
    (accepted : Grammar.caller.Accepts (.array (.entry key element)))
    (ih : Exact config element) : Exact config (.array (.entry key element)) := by
  intro value arg
  rw [encodeAs_dictionary_iff]
  simp only [forall₂_ok_iff fun pair _ keyed => encodeEntry_conforming_iff accepted.entry ih]
  constructor
  · intro h
    rcases h with ⟨rfl, same⟩ | ⟨pairs, _, rfl, ⟨conform, rfl⟩, built⟩
    · exact ⟨same, rfl⟩
    · obtain ⟨distinct, made⟩ := buildDictionary_iff.1 built
      obtain ⟨-, -, rfl⟩ := ofItems_ofType_iff.1 made
      rw [List.map_map] at distinct
      exact ⟨⟨conform, distinct⟩, rfl⟩
  · intro h
    obtain ⟨conforms, rfl⟩ := h
    cases value with
    | arg given => exact Or.inl ⟨rfl, conforms⟩
    | map pairs =>
      obtain ⟨conform, distinct⟩ := conforms
      refine Or.inr ⟨pairs, _, rfl, ⟨conform, rfl⟩, buildDictionary_iff.2 ⟨?_, ?_⟩⟩
      · rw [List.map_map]
        exact distinct
      · refine ofItems_ofType_iff.2 ⟨accepted, ?_, rfl⟩
        rw [List.forall_mem_map]
        intro entry kept
        obtain ⟨pair, -, rfl⟩ := List.mem_map.1 (DuplicateKeys.mem_of_mem_collapse kept)
        rfl
    | _ => cases conforms

theorem exact_array {element : CompleteType} (accepted : Grammar.caller.Accepts (.array element))
    (other : element.tag ≠ .dictEntry) (ih : Exact config element) :
    Exact config (.array element) := by
  have resolved : element ≠ .wildcard := (accepted.element other).ne_wildcard
  intro value arg
  rw [encodeAs_array_iff other]
  simp only [forall₂_ok_iff fun item _ result => ih item result, buildArray_iff resolved,
    ofItems_ofType_iff]
  constructor
  · intro h
    rcases h with ⟨rfl, same⟩ | ⟨items, _, rfl, ⟨conform, rfl⟩, uniform, -, -, rfl⟩
    · rw [conforms_arg_iff (by simp) (by simp), tree_arg arg (by simp)]
      exact ⟨same, rfl⟩
    · rw [conforms_seq_iff other, tree_seq items other]
      refine ⟨⟨conform, fun variant => ?_⟩, rfl⟩
      subst variant
      exact (uniformContents_tree_iff conform).1 (uniform rfl)
  · intro h
    obtain ⟨conforms, rfl⟩ := h
    cases value with
    | arg given =>
      rw [conforms_arg_iff (by simp) (by simp)] at conforms
      rw [tree_arg given (by simp)]
      exact Or.inl ⟨rfl, conforms⟩
    | seq items =>
      rw [conforms_seq_iff other] at conforms
      obtain ⟨conform, uniform⟩ := conforms
      refine Or.inr ⟨items, _, rfl, ⟨conform, rfl⟩, fun variant => ?_, accepted, ?_,
        tree_seq items other⟩
      · subst variant
        exact (uniformContents_tree_iff conform).2 (uniform rfl)
      · rw [List.forall_mem_map]
        intro item member
        exact signature_tree (conform item member) resolved
    | _ => exact absurd conforms (not_conforms_array other (by simp) (by simp))

theorem exact_struct {types : List CompleteType} (accepted : Grammar.caller.Accepts (.struct types))
    (ih : ∀ type ∈ types, Exact config type) : Exact config (.struct types) := by
  have each : ∀ items : List Value, ∀ slot ∈ types.zip items, ∀ result,
      encodeAs config slot.1 slot.2 = .ok result ↔
        Conforms config slot.1 slot.2 ∧ result = tree slot.1 slot.2 := by
    intro items slot member result
    exact ih slot.1 (List.of_mem_zip member).1 slot.2 result
  intro value arg
  rw [encodeAs_struct_iff]
  constructor
  · intro h
    rcases h with ⟨rfl, same⟩ | ⟨items, _, rfl, arity, encoded, made⟩
    · exact ⟨same, rfl⟩
    · obtain ⟨conform, rfl⟩ := (forall₂_ok_iff (each items)).1 encoded
      have conforms := allConform_iff.2 ⟨arity, conform⟩
      rw [← treeAll_eq, ofMembers_treeAll_iff accepted conforms] at made
      exact ⟨conforms, made⟩
  · intro h
    obtain ⟨conforms, rfl⟩ := h
    cases value with
    | arg given => exact Or.inl ⟨rfl, conforms⟩
    | seq items =>
      obtain ⟨arity, conform⟩ := allConform_iff.1 conforms
      refine Or.inr ⟨items, _, rfl, arity, (forall₂_ok_iff (each items)).2 ⟨conform, rfl⟩, ?_⟩
      rw [← treeAll_eq, ofMembers_treeAll_iff accepted conforms]
      rfl
    | _ => cases conforms

theorem exact_of_accepts {type : CompleteType} (accepted : Grammar.caller.Accepts type) :
    Exact config type := by
  induction accepted using Grammar.Accepts.slots with
  | basic type => exact exact_basic type
  | variant => exact exact_variant
  | dictionary key element accepted inside ih => exact exact_dictionary accepted ih
  | array element accepted other inside ih => exact exact_array accepted other ih
  | struct types accepted inside ih => exact exact_struct accepted ih

/-- Encoding succeeds on the conforming values and gives their trees. -/
theorem encodeAs_iff {type : CompleteType} {value : Value} {arg : Argument}
    (accepted : Grammar.caller.Accepts type) :
    encodeAs config type value = .ok arg ↔ Conforms config type value ∧ arg = tree type value :=
  exact_of_accepts accepted value arg

/-- A key conforms if it conforms to its type. -/
theorem conformsKey_iff {type : BasicType} {value : Value} (formed : value.WellFormed) :
    ConformsKey config type value ↔ Conforms config (.basic type) value := by
  cases value with
  | arg given =>
    rw [Value.wellFormed_arg_iff] at formed
    show _ ↔ given.signature = ofType (.basic type)
    cases given with
    | scalar name =>
      constructor
      · intro h
        subst h
        rfl
      · intro same
        cases Signature.ofType_inj same
        rfl
    | _ =>
      constructor
      · intro impossible
        cases impossible
      · intro same
        cases formed.tag_eq same
  | _ => exact Iff.rfl

end Encoding

/-- Encoding under a signature of one type succeeds exactly on the values that conform to the type
and whose tree is not too deep. The result is the tree, and it has the signature asked for. -/
theorem encodeSignature_iff_conforms {signature : Signature} {type : CompleteType}
    (single : Grammar.caller.read signature.text = .ok [type]) (config : CodecConfig)
    (value : Value) (arg : Argument) :
    (encodeSignature config signature value = .ok arg ↔
      Encoding.Conforms config type value ∧
        (Encoding.tree type value).depth ≤ config.maxDepth ∧ arg = Encoding.tree type value) ∧
    (encodeSignature config signature value = .ok arg → arg.signature = signature) := by
  obtain ⟨rfl, accepted⟩ := Signature.eq_ofType single
  have outcome : encodeSignature config (ofType type) value = .ok arg ↔
      Encoding.Conforms config type value ∧
        (Encoding.tree type value).depth ≤ config.maxDepth ∧ arg = Encoding.tree type value := by
    rw [encodeSignature_ofType accepted, Encoding.encodeComplete_iff,
      Encoding.encodeAs_iff accepted]
    constructor
    · intro h
      obtain ⟨⟨conforms, rfl⟩, shallow⟩ := h
      exact ⟨conforms, shallow, rfl⟩
    · intro h
      obtain ⟨conforms, shallow, rfl⟩ := h
      exact ⟨⟨conforms, rfl⟩, shallow⟩
  refine ⟨outcome, fun encoded => ?_⟩
  obtain ⟨conforms, -, rfl⟩ := outcome.1 encoded
  exact Encoding.signature_tree conforms (accepted.ne_wildcard)

theorem encodeSignature_iff_conforms_struct :
    encodeSignature .standard ⟨"(yas)"⟩ (.seq [.atom (.byte 7), .seq [.atom (.string "on")]]) =
      .ok (.struct ⟨"(yas)"⟩
        [.scalar (.byte 7), .array ⟨"s"⟩ ⟨"as"⟩ [.scalar (.string "on")]]) := by
  have single : Grammar.caller.read "(yas)" =
      .ok [.struct [.basic .byte, .array (.basic .string)]] := rfl
  refine ((encodeSignature_iff_conforms single .standard _ _).1).2 ⟨?_, by decide, rfl⟩
  refine ⟨trivial, ⟨?_, by simp⟩, trivial⟩
  intro item member
  rw [List.mem_singleton.1 member]
  trivial

end MessageArgs
