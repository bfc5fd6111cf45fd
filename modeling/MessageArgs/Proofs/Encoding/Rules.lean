import MessageArgs.Encoding
import MessageArgs.Envelope
import MessageArgs.Proofs.Argument.WellFormed
import MessageArgs.Proofs.DuplicateKeys

/-!
# The rules of encoding

What the encoder takes in each kind of slot, and what it makes of it. There is one lemma for each
kind of complete type (`encodeAs_basic_iff` to `encodeAs_entry_iff`), and further proofs about the
encoder use these by `CompleteType.slots` instead of its definition, or by `Grammar.Accepts.slots`
where the type is one that a caller may name.

The containers that the encoder builds check their contents again. `buildArray_iff`,
`buildDictionary_iff` and `buildStruct_iff` say what that amounts to.
-/

namespace MessageArgs

open Signature (ofType)

/-- Induction over the slots of a type. The entry of a dictionary is no slot, its value is one. -/
@[elab_as_elim]
theorem CompleteType.slots {P : CompleteType → Prop} (basic : ∀ type, P (.basic type))
    (variant : P .variant) (wildcard : P .wildcard)
    (dictionary : ∀ key element, P element → P (.array (.entry key element)))
    (array : ∀ element, element.tag ≠ .dictEntry → P element → P (.array element))
    (struct : ∀ types, (∀ type ∈ types, P type) → P (.struct types))
    (entry : ∀ key element, P (.entry key element)) : ∀ type, P type
  | .basic type => basic type
  | .variant => variant
  | .wildcard => wildcard
  | .array (.entry key element) =>
    dictionary key element (slots basic variant wildcard dictionary array struct entry element)
  | .array (.basic type) => array _ (by simp [tag]) (basic type)
  | .array .variant => array _ (by simp [tag]) variant
  | .array .wildcard => array _ (by simp [tag]) wildcard
  | .array (.array element) =>
    array _ (by simp [tag])
      (slots basic variant wildcard dictionary array struct entry (.array element))
  | .array (.struct types) =>
    array _ (by simp [tag])
      (slots basic variant wildcard dictionary array struct entry (.struct types))
  | .struct types =>
    struct types fun type _ => slots basic variant wildcard dictionary array struct entry type
  | .entry key element => entry key element

/-- Induction over the slots of a type that a caller may name: each of them takes a type that a
caller may name as well. Wildcards and entries without an array do not come up. -/
@[elab_as_elim]
theorem Grammar.Accepts.slots {P : ∀ type, caller.Accepts type → Prop}
    (basic : ∀ type accepted, P (.basic type) accepted)
    (variant : ∀ accepted, P .variant accepted)
    (dictionary : ∀ key element accepted (inside : caller.Accepts element), P element inside →
      P (.array (.entry key element)) accepted)
    (array : ∀ element accepted (_ : element.tag ≠ .dictEntry) (inside : caller.Accepts element),
      P element inside → P (.array element) accepted)
    (struct : ∀ types accepted (inside : ∀ type ∈ types, caller.Accepts type),
      (∀ type member, P type (inside type member)) → P (.struct types) accepted)
    {type : CompleteType} (accepted : caller.Accepts type) : P type accepted := by
  induction type using CompleteType.slots with
  | basic type => exact basic type accepted
  | variant => exact variant accepted
  | wildcard => exact absurd rfl accepted.ne_wildcard
  | dictionary key element ih => exact dictionary key element accepted accepted.content (ih _)
  | array element other ih => exact array element accepted other (accepted.element other) (ih _)
  | struct types ih =>
    exact struct types accepted (fun _ => accepted.member) fun type member => ih type member _
  | entry key element => exact absurd rfl (accepted.tag_ne rfl)

namespace Argument

/-- An argument without the variant layer that a slot for variants would put around it. -/
def content : Argument → Argument
  | variant content => content
  | arg => arg

theorem content_eq_iff {arg : Argument} : arg.content = arg ↔ arg.tag ≠ .variant := by
  cases arg with
  | variant inside =>
    refine iff_of_false (fun same => ?_) fun other => other rfl
    have sizes := congrArg sizeOf same
    simp [content] at sizes
  | _ => simp [content, tag]

theorem WellFormed.content {arg : Argument} (h : arg.WellFormed) : arg.content.WellFormed := by
  cases arg with
  | variant content =>
    rw [WellFormed] at h
    exact h
  | _ => exact h

end Argument

namespace Encoding

variable {config : CodecConfig} {value : Value} {arg : Argument}

/-! ## Containers -/

theorem contentSignature_eq (item : Argument) :
    contentSignature item = item.content.signature := by
  cases item <;> rfl

/-- The contents of some variants all have one signature. -/
def UniformContents (items : List Argument) : Prop :=
  ∃ expected, ∀ item ∈ items, item.content.signature = expected

theorem firstDifference_eq_none_iff {expected : Signature} {index : Nat} {found : List Signature} :
    firstDifference expected index found = none ↔ ∀ signature ∈ found, signature = expected := by
  induction found generalizing index with
  | nil => simp [firstDifference]
  | cons first rest ih =>
    rw [firstDifference, List.forall_mem_cons]
    split
    · rename_i same
      rw [ih, and_iff_right same]
    · rename_i different
      simp [different]

theorem checkUniformContents_iff {items : List Argument} :
    checkUniformContents items = .ok () ↔ UniformContents items := by
  have signatures : items.map contentSignature = items.map fun item => item.content.signature :=
    List.map_congr_left fun item _ => contentSignature_eq item
  rw [checkUniformContents, signatures, UniformContents]
  cases items with
  | nil => exact ⟨fun _ => ⟨.empty, by simp⟩, fun _ => rfl⟩
  | cons first rest =>
    rw [List.map_cons]
    have judged := @firstDifference_eq_none_iff first.content.signature 1
      (rest.map fun item => item.content.signature)
    rw [List.forall_mem_map] at judged
    constructor
    · intro h
      cases found : firstDifference first.content.signature 1
          (rest.map fun item => item.content.signature) with
      | none => exact ⟨first.content.signature, List.forall_mem_cons.2 ⟨rfl, judged.1 found⟩⟩
      | some fault => simp [found] at h
    · intro h
      obtain ⟨expected, uniform⟩ := h
      rw [List.forall_mem_cons] at uniform
      have same := judged.2 fun item member => (uniform.2 item member).trans uniform.1.symm
      simp only [same]

theorem ofType_variant : ofType .variant = .variant := rfl

theorem ofItems_ofType_iff {element : CompleteType} {items : List Argument} :
    Argument.ofItems (ofType element) items = .ok arg ↔
      Grammar.caller.Accepts (.array element) ∧ (∀ item ∈ items, item.signature = ofType element) ∧
        arg = .array (ofType element) (ofType (.array element)) items := by
  rw [Argument.ofItems_iff]
  simp only [Signature.arrayOf_iff]
  constructor
  · intro h
    obtain ⟨_, ⟨type, same, rfl, accepted⟩, uniform, rfl⟩ := h
    cases Signature.ofType_inj same
    exact ⟨accepted, uniform, rfl⟩
  · intro h
    obtain ⟨accepted, uniform, rfl⟩ := h
    exact ⟨_, ⟨element, rfl, rfl, accepted⟩, uniform, rfl⟩

/-- The type of the slots of an array is read again before the array is made. -/
theorem parse_ofItems_iff {element : CompleteType} {items : List Argument} :
    (do
      let signature ← (Grammar.stored.parse element.text).mapError CodecError.signature
      (Argument.ofItems signature items).mapError .ofBuild) = .ok arg ↔
      Argument.ofItems (ofType element) items = .ok arg := by
  have accepted : Argument.ofItems (ofType element) items = .ok arg →
      Grammar.stored.Accepts element :=
    fun built => Grammar.accepts_element (ofItems_ofType_iff.1 built).1 id rfl
  simpa [and_assoc] using accepted

/-- An array of anything but wildcards is checked against the type of its slots. -/
theorem buildArray_iff {element : CompleteType} {items : List Argument}
    (resolved : element ≠ .wildcard) :
    buildArray element items = .ok arg ↔
      (element = .variant → UniformContents items) ∧
        Argument.ofItems (ofType element) items = .ok arg := by
  cases element with
  | wildcard => exact absurd rfl resolved
  | variant => simp [buildArray, checkUniformContents_iff, ofType_variant]
  | _ => exact parse_ofItems_iff.trans (by simp)

theorem buildArray_wildcard_iff {items : List Argument} :
    buildArray .wildcard items = .ok arg ↔ Argument.ofUniformItems items = .ok arg :=
  mapError_ok_iff

/-- A dictionary is made of the entries that remain of those that are encoded. -/
theorem buildDictionary_iff {entry : CompleteType} {keyed : List (String × Argument)} :
    buildDictionary config entry keyed = .ok arg ↔
      (config.duplicateKeys = .reject → (keyed.map Prod.fst).Nodup) ∧
        Argument.ofItems (ofType entry) ((DuplicateKeys.collapse keyed).map Prod.snd) =
          .ok arg := by
  rw [buildDictionary, bind_ok_iff]
  simp only [parse_ofItems_iff]
  simp [DuplicateKeys.apply_iff, and_assoc]

theorem buildStruct_iff {members : List Argument} :
    buildStruct members = .ok arg ↔ Argument.ofMembers members = .ok arg :=
  mapError_ok_iff

/-! ## Slots -/

theorem keepArgument_iff {type : CompleteType} {otherwise : Except CodecError Argument} :
    keepArgument type value otherwise = .ok arg ↔
      (value = .arg arg ∧ arg.signature = ofType type) ∨
        ((∀ given, value ≠ .arg given) ∧ otherwise = .ok arg) := by
  cases value with
  | arg given =>
    rw [keepArgument]
    split
    · rename_i fits
      rw [Argument.hasSignature_ofType_iff] at fits
      simp only [Except.ok.injEq, Value.arg.injEq]
      constructor
      · intro h
        subst h
        exact Or.inl ⟨rfl, fits⟩
      · intro h
        rcases h with ⟨rfl, -⟩ | ⟨loose, -⟩
        · rfl
        · exact absurd rfl (loose given)
    · rename_i unfit
      rw [Argument.hasSignature_ofType_iff] at unfit
      constructor
      · intro impossible
        cases impossible
      · intro h
        rcases h with ⟨same, fits⟩ | ⟨loose, -⟩
        · cases same
          exact absurd fits unfit
        · exact absurd rfl (loose given)
  | _ => simp [keepArgument]

theorem encodeAs_wildcard_iff : encodeAs config .wildcard value = .ok arg ↔ value = .arg arg := by
  rw [encodeAs]
  cases value <;> simp [encodeWildcard]

theorem encodeAs_variant_iff : encodeAs config .variant value = .ok arg ↔
    ∃ given, value = .arg given ∧ arg = .variant given.content := by
  rw [encodeAs]
  cases value with
  | arg given => cases given <;> simp [encodeVariant, Argument.content, eq_comm]
  | _ => simp [encodeVariant]

theorem encodeAs_entry_iff {key : BasicType} {element : CompleteType} :
    encodeAs config (.entry key element) value = .ok arg ↔
      value = .arg arg ∧ arg.signature = ofType (.entry key element) := by
  rw [encodeAs, keepArgument_iff]
  simp

theorem encodeAs_basic_iff {type : BasicType} :
    encodeAs config (.basic type) value = .ok arg ↔
      (value = .arg arg ∧ arg.signature = ofType (.basic type)) ∨
        ∃ atom scalar, value = .atom atom ∧ encodeScalar config type (.atom atom) = .ok scalar ∧
          arg = .scalar scalar := by
  rw [encodeAs, keepArgument_iff]
  cases value with
  | atom atom => simp [eq_comm (a := arg)]
  | _ => simp [encodeScalar, Scalar.ofValue]

/-- Slots with a type of their own keep an argument or refuse it. -/
theorem encodeAs_arg (type : CompleteType) (given : Argument) (named : type ≠ .variant)
    (resolved : type ≠ .wildcard) : ∃ otherwise,
      encodeAs config type (.arg given) = keepArgument type (.arg given) otherwise := by
  cases type with
  | variant => exact absurd rfl named
  | wildcard => exact absurd rfl resolved
  | array element => cases element <;> exact ⟨_, rfl⟩
  | _ => exact ⟨_, rfl⟩

/-- An argument is taken as it is, if it has the type of the slot. -/
theorem encodeAs_arg_iff (type : CompleteType) {given : Argument} (named : type ≠ .variant)
    (resolved : type ≠ .wildcard) :
    encodeAs config type (.arg given) = .ok arg ↔ given = arg ∧ arg.signature = ofType type := by
  obtain ⟨otherwise, kept⟩ := @encodeAs_arg config type given named resolved
  rw [kept, keepArgument_iff]
  simp

/-- An array is only made of a sequence. -/
theorem encodeAs_array_mismatch {element : CompleteType} (other : element.tag ≠ .dictEntry)
    (value : Value) (loose : ∀ given, value ≠ .arg given) (single : ∀ items, value ≠ .seq items) :
    encodeAs config (.array element) value = .error (mismatch (.array element) value) := by
  cases value with
  | arg given => exact absurd rfl (loose given)
  | seq items => exact absurd rfl (single items)
  | _ =>
    cases element with
    | entry => exact absurd rfl other
    | _ => rfl

theorem encodeAs_array_seq {element : CompleteType} (other : element.tag ≠ .dictEntry)
    (items : List Value) :
    encodeAs config (.array element) (.seq items) = (do
      let built ← items.mapM fun item => encodeAs config element item
      buildArray element built) := by
  cases element with
  | entry => exact absurd rfl other
  | _ => rfl

theorem encodeAs_array_iff {element : CompleteType} (other : element.tag ≠ .dictEntry) :
    encodeAs config (.array element) value = .ok arg ↔
      (value = .arg arg ∧ arg.signature = ofType (.array element)) ∨
        ∃ items built, value = .seq items ∧
          List.Forall₂ (fun item built => encodeAs config element item = .ok built) items built ∧
          buildArray element built = .ok arg := by
  cases value with
  | arg given => simp [encodeAs_arg_iff]
  | seq items => simp [encodeAs_array_seq other]
  | atom | map => simp [encodeAs_array_mismatch other]

/-- The entry that a pair is, with the fingerprint of its key. -/
def encodeEntry (config : CodecConfig) (key : BasicType) (element : CompleteType)
    (pair : Value × Value) : Except CodecError (String × Argument) := do
  let name ← encodeKey config key pair.1
  let content ← encodeAs config element pair.2
  let entry ← (Argument.ofPair name content).mapError .ofBuild
  pure (name.fingerprint, entry)

theorem encodeEntry_iff {key : BasicType} {element : CompleteType} {pair : Value × Value}
    {keyed : String × Argument} :
    encodeEntry config key element pair = .ok keyed ↔
      ∃ name content, encodeKey config key pair.1 = .ok name ∧
        encodeAs config element pair.2 = .ok content ∧
        Argument.ofPair name content = .ok keyed.2 ∧ keyed.1 = name.fingerprint := by
  obtain ⟨name, entry⟩ := keyed
  simp [encodeEntry, eq_comm (a := name)]

theorem encodeAs_dictionary_map (key : BasicType) (element : CompleteType)
    (pairs : List (Value × Value)) :
    encodeAs config (.array (.entry key element)) (.map pairs) = (do
      let keyed ← pairs.mapM (encodeEntry config key element)
      buildDictionary config (.entry key element) keyed) :=
  rfl

theorem encodeAs_dictionary_iff {key : BasicType} {element : CompleteType} :
    encodeAs config (.array (.entry key element)) value = .ok arg ↔
      (value = .arg arg ∧ arg.signature = ofType (.array (.entry key element))) ∨
        ∃ pairs keyed, value = .map pairs ∧
          List.Forall₂ (fun pair keyed => encodeEntry config key element pair = .ok keyed)
            pairs keyed ∧
          buildDictionary config (.entry key element) keyed = .ok arg := by
  cases value with
  | arg given => simp [encodeAs_arg_iff]
  | map pairs => simp [encodeAs_dictionary_map]
  | atom | seq => simp [encodeAs, keepArgument]

/-- Members of a struct are encoded one by one. -/
theorem encodeMembers_eq (types : List CompleteType) (values : List Value) :
    encodeMembers config types values =
      (types.zip values).mapM fun slot => encodeAs config slot.1 slot.2 := by
  induction types generalizing values with
  | nil => rfl
  | cons type types ih =>
    cases values with
    | nil => rfl
    | cons value values => rw [encodeMembers, ih, List.zip_cons_cons, List.mapM_cons]

theorem encodeAs_struct_iff {types : List CompleteType} :
    encodeAs config (.struct types) value = .ok arg ↔
      (value = .arg arg ∧ arg.signature = ofType (.struct types)) ∨
        ∃ items built, value = .seq items ∧ types.length = items.length ∧
          List.Forall₂ (fun slot built => encodeAs config slot.1 slot.2 = .ok built)
            (types.zip items) built ∧
          Argument.ofMembers built = .ok arg := by
  cases value with
  | arg given => simp [encodeAs_arg_iff]
  | seq items =>
    rw [encodeAs, keepArgument_iff]
    by_cases same : types.length = items.length
    · simp [encodeMembers_eq, buildStruct_iff, same]
    · simp [same]
  | atom | map => simp [encodeAs, keepArgument]

/-! ## Whole values -/

theorem checkDepth_iff {built : Argument} :
    checkDepth config built = .ok arg ↔ built = arg ∧ arg.depth ≤ config.maxDepth := by
  rw [checkDepth]
  split
  · rename_i deep
    constructor
    · intro impossible
      cases impossible
    · intro h
      obtain ⟨rfl, shallow⟩ := h
      omega
  · rename_i shallow
    rw [Except.ok.injEq]
    constructor
    · intro h
      subst h
      exact ⟨rfl, by omega⟩
    · exact And.left

theorem encodeComplete_iff {type : CompleteType} :
    encodeComplete config type value = .ok arg ↔
      encodeAs config type value = .ok arg ∧ arg.depth ≤ config.maxDepth := by
  simp [encodeComplete, checkDepth_iff]

theorem encodeEach_eq (types : List CompleteType) (values : List Value) :
    encodeEach config types values =
      (types.zip values).mapM fun slot => encodeComplete config slot.1 slot.2 := by
  induction types generalizing values with
  | nil => rfl
  | cons type types ih =>
    cases values with
    | nil => rfl
    | cons value values => rw [encodeEach, ih, List.zip_cons_cons, List.mapM_cons]

end Encoding

/-- The signature of an accepted type is single. -/
theorem Signature.single_ofType {grammar : Grammar} {type : CompleteType}
    (h : grammar.Accepts type) : (ofType type).single = .ok type := by
  rw [single, types_ofType h]

theorem encodeSignature_ofType {grammar : Grammar} {type : CompleteType}
    (h : grammar.Accepts type) (config : CodecConfig) (value : Value) :
    encodeSignature config (ofType type) value = Encoding.encodeComplete config type value := by
  rw [encodeSignature, Signature.single_ofType h]
  rfl

/-- Encoding under the text of one type is encoding under the type. -/
theorem encode_of_single {text : String} {type : CompleteType}
    (single : Grammar.caller.read text = .ok [type]) (config : CodecConfig) (value : Value) :
    encode config text value = Encoding.encodeComplete config type value := by
  rw [encode, Signature.parseSingle_iff.2 ⟨type, single, rfl⟩]
  obtain ⟨rfl, accepted⟩ := Grammar.read_single single
  exact encodeSignature_ofType accepted config value

theorem encodeSignature_ok_iff {config : CodecConfig} {signature : Signature} {value : Value}
    {arg : Argument} : encodeSignature config signature value = .ok arg ↔
      ∃ type, signature.single = .ok type ∧
        Encoding.encodeComplete config type value = .ok arg := by
  simp [encodeSignature]

/-- A text is read as one type before anything is done under it. -/
theorem parseSingle_bind_ok_iff {ε α : Type} {text : String} {cause : SignatureError → ε}
    {next : Signature → Except ε α} {result : α} :
    ((Signature.parseSingle text).mapError cause >>= next) = .ok result ↔
      ∃ type, Grammar.caller.read text = .ok [type] ∧ next (ofType type) = .ok result := by
  simp only [bind_ok_iff, mapError_ok_iff, Signature.parseSingle_iff]
  constructor
  · intro h
    obtain ⟨_, ⟨type, single, rfl⟩, done⟩ := h
    obtain ⟨rfl, -⟩ := Grammar.read_single single
    exact ⟨type, single, done⟩
  · intro h
    obtain ⟨type, single, done⟩ := h
    obtain ⟨rfl, -⟩ := Grammar.read_single single
    exact ⟨ofType type, ⟨type, single, rfl⟩, done⟩

theorem encode_ok_iff {config : CodecConfig} {text : String} {value : Value} {arg : Argument} :
    encode config text value = .ok arg ↔ ∃ type, Grammar.caller.read text = .ok [type] ∧
      Encoding.encodeComplete config type value = .ok arg := by
  rw [encode, parseSingle_bind_ok_iff]
  refine exists_congr fun type => and_congr_right fun single => ?_
  rw [encodeSignature_ofType (Grammar.read_single single).2]

/-- Once the signature is read and the values are counted, they are encoded one by one. -/
theorem encodeAll_of_read {text : String} {types : List CompleteType} {values : List Value}
    (read : Grammar.caller.read text = .ok types) (arity : types.length = values.length)
    (config : CodecConfig) :
    encodeAll config text values = Encoding.encodeEach config types values := by
  rw [encodeAll, read]
  exact if_neg (not_not.2 arity)

/-- Several values are encoded one by one, under as many types. -/
theorem encodeAll_iff {config : CodecConfig} {text : String} {values : List Value}
    {args : List Argument} :
    encodeAll config text values = .ok args ↔
      ∃ types, Grammar.caller.read text = .ok types ∧ types.length = values.length ∧
        List.Forall₂ (fun slot arg => Encoding.encodeComplete config slot.1 slot.2 = .ok arg)
          (types.zip values) args := by
  rw [encodeAll, bind_ok_iff]
  simp only [mapError_ok_iff]
  refine exists_congr fun types => and_congr_right fun _ => ?_
  by_cases arity : types.length = values.length
  · simp [arity, Encoding.encodeEach_eq]
  · simp [arity]

theorem Envelope.ofValues_ok_iff {seq : UInt64} {member text : String} {values : List Value}
    {envelope : Envelope} : Envelope.ofValues seq member text values = .ok envelope ↔
      ∃ args, encodeAll .standard text values = .ok args ∧ envelope = ⟨seq, member, args⟩ := by
  simp [Envelope.ofValues, eq_comm (a := envelope)]

/-- Encoding some arguments as one array is encoding under an array of wildcards. -/
theorem encodeInferred_eq (config : CodecConfig) (values : List Value) :
    encodeInferred config values =
      Encoding.encodeComplete config (.array .wildcard) (.seq values) := by
  have rule : Encoding.encodeAs config (.array .wildcard) (.seq values) = (do
      let items ← values.mapM Encoding.encodeWildcard
      Encoding.buildArray .wildcard items) := rfl
  rw [encodeInferred, Encoding.encodeComplete, rule, bind_assoc]

end MessageArgs
