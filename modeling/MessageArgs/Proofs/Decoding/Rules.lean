import MessageArgs.Decoding
import MessageArgs.Proofs.Encoding.Rules

/-!
# The rules of decoding

What the decoder reads under each kind of complete type, and what it makes of it. There is one
lemma for each kind (`decodeAs_basic_iff` to `decodeAs_entry`), as for the encoder.
-/

namespace MessageArgs

namespace Decoding

open Signature (ofType)

variable {config : CodecConfig} {arg : Argument} {value : Value}

theorem decodeAs_wildcard_iff : decodeAs config .wildcard arg = .ok value ↔ value = .arg arg := by
  rw [decodeAs, Except.ok.injEq]
  exact eq_comm

theorem decodeAs_variant_iff : decodeAs config .variant arg = .ok value ↔
    ∃ content, arg = .variant content ∧ value = .arg content := by
  rw [decodeAs]
  cases arg with
  | variant content => simp [decodeVariant, eq_comm]
  | _ => simp [decodeVariant]

theorem decodeAs_entry {key : BasicType} {element : CompleteType} :
    decodeAs config (.entry key element) arg ≠ .ok value := by
  rw [decodeAs]
  exact nofun

theorem decodeBasic_iff {type : BasicType} : decodeBasic type arg = .ok value ↔
    ∃ scalar : Scalar, arg = .scalar scalar ∧ scalar.type = type ∧ value = .atom scalar.toAtom := by
  cases arg with
  | scalar scalar =>
    rw [decodeBasic]
    split
    · rename_i same
      simp [same, eq_comm]
    · rename_i different
      simp [different]
  | _ => simp [decodeBasic]

theorem decodeAs_basic_iff {type : BasicType} : decodeAs config (.basic type) arg = .ok value ↔
    ∃ scalar : Scalar, arg.unwrapped = .scalar scalar ∧ scalar.type = type ∧
      value = .atom scalar.toAtom := by
  rw [decodeAs, decodeBasic_iff]

theorem acceptsElement_iff {element : CompleteType} {found : Signature}
    (resolved : element ≠ .wildcard) :
    acceptsElement element found = true ↔ found = ofType element := by
  have named : acceptsElement element found = decide (found.text = element.text) := by
    cases element with
    | wildcard => exact absurd rfl resolved
    | _ => rfl
  rw [named, decide_eq_true_eq, Signature.eq_iff]
  rfl

theorem decodeAs_array_iff {element : CompleteType} (other : element.tag ≠ .dictEntry) :
    decodeAs config (.array element) arg = .ok value ↔
      ∃ found signature items values, arg.unwrapped = .array found signature items ∧
        acceptsElement element found = true ∧
        List.Forall₂ (fun item value => decodeAs config element item = .ok value) items values ∧
        value = .seq values := by
  have entry : ∀ key inner, element = .entry key inner → False := by
    intro key inner same
    rw [same] at other
    exact other rfl
  rw [decodeAs]
  swap
  · exact entry
  cases arg.unwrapped with
  | array found signature items =>
    by_cases accepted : acceptsElement element found = true
    · simp [accepted, eq_comm (a := value)]
    · simp [accepted]
  | _ => simp

/-- The pair that an entry is, with the fingerprint of its key. -/
def decodeEntry (config : CodecConfig) (key : BasicType) (element : CompleteType)
    (item : Argument) : Except CodecError (String × Value × Value) :=
  match item with
  | .dictEntry _ name content => do
    let first ← decodeBasic key (.scalar name)
    let second ← decodeAs config element content
    pure (name.fingerprint, (first, second))
  | other => .error (mismatch (.entry key element) other)

theorem decodeEntry_iff {key : BasicType} {element : CompleteType}
    {keyed : String × Value × Value} :
    decodeEntry config key element arg = .ok keyed ↔
      ∃ signature name content, arg = .dictEntry signature name content ∧ name.type = key ∧
        decodeAs config element content = .ok keyed.2.2 ∧
        keyed.1 = name.fingerprint ∧ keyed.2.1 = .atom name.toAtom := by
  cases arg with
  | dictEntry signature name content =>
    obtain ⟨tag, first, second⟩ := keyed
    simp [decodeEntry, decodeBasic_iff, eq_comm (a := tag), eq_comm (a := first)]
  | _ => simp [decodeEntry]

theorem decodeAs_dictionary_iff {key : BasicType} {element : CompleteType} :
    decodeAs config (.array (.entry key element)) arg = .ok value ↔
      ∃ signature items keyed,
        arg.unwrapped = .array (ofType (.entry key element)) signature items ∧
        List.Forall₂ (fun item keyed => decodeEntry config key element item = .ok keyed) items
          keyed ∧
        (config.duplicateKeys = .reject → (keyed.map Prod.fst).Nodup) ∧
        value = .map ((DuplicateKeys.collapse keyed).map Prod.snd) := by
  rw [decodeAs]
  cases arg.unwrapped with
  | array found signature items =>
    dsimp only
    split
    · rename_i different
      constructor
      · intro impossible
        cases impossible
      · intro h
        obtain ⟨_, _, _, same, -⟩ := h
        cases same
        exact absurd rfl different
    · rename_i same
      rw [not_not] at same
      have typed : found = ofType (.entry key element) := Signature.eq_iff.2 same
      subst typed
      show (do
        let keyed ← items.mapM (decodeEntry config key element)
        let pairs ← config.duplicateKeys.apply keyed
        pure (Value.map pairs)) = Except.ok value ↔ _
      simp [DuplicateKeys.apply_iff, and_assoc, eq_comm (a := value)]
  | _ => simp

/-- Members of a struct are decoded one by one. -/
theorem decodeMembers_eq (types : List CompleteType) (args : List Argument) :
    decodeMembers config types args =
      (types.zip args).mapM fun slot => decodeAs config slot.1 slot.2 := by
  induction types generalizing args with
  | nil => rfl
  | cons type types ih =>
    cases args with
    | nil => rfl
    | cons arg args => rw [decodeMembers, ih, List.zip_cons_cons, List.mapM_cons]

theorem decodeAs_struct_iff {types : List CompleteType} :
    decodeAs config (.struct types) arg = .ok value ↔
      ∃ signature members values, arg.unwrapped = .struct signature members ∧
        types.length = members.length ∧ acceptsMembers types members = true ∧
        List.Forall₂ (fun slot value => decodeAs config slot.1 slot.2 = .ok value)
          (types.zip members) values ∧
        value = .seq values := by
  rw [decodeAs]
  cases arg.unwrapped with
  | struct signature members =>
    dsimp only
    split
    · rename_i fits
      simp [decodeMembers_eq, fits, eq_comm (a := value)]
    · rename_i unfit
      constructor
      · intro impossible
        cases impossible
      · intro h
        obtain ⟨_, _, _, same, arity, accepted, -⟩ := h
        cases same
        exact absurd ⟨arity, accepted⟩ unfit
  | _ => simp

theorem acceptsMembers_iff {types : List CompleteType} {members : List Argument} :
    acceptsMembers types members = true ↔ ∀ slot ∈ types.zip members,
      slot.1.hasWildcard = false → slot.2.signature = ofType slot.1 := by
  simp only [acceptsMembers, List.all_eq_true, Bool.or_eq_true, Argument.hasSignature_ofType_iff,
    or_iff_not_imp_left, Bool.not_eq_true]

end Decoding

/-- Decoding under the signature of an accepted type is decoding under the type. -/
theorem decodeSignature_ofType {grammar : Grammar} {type : CompleteType}
    (h : grammar.Accepts type) (config : CodecConfig) (arg : Argument) :
    decodeSignature config (.ofType type) arg = Decoding.decodeAs config type arg := by
  rw [decodeSignature, Signature.single_ofType h]
  rfl

/-- Decoding under the text of one type is decoding under the type. -/
theorem decode_of_single {text : String} {type : CompleteType}
    (single : Grammar.caller.read text = .ok [type]) (config : CodecConfig) (arg : Argument) :
    decode config text arg = Decoding.decodeAs config type arg := by
  rw [decode, Signature.parseSingle_iff.2 ⟨type, single, rfl⟩]
  obtain ⟨rfl, accepted⟩ := Grammar.read_single single
  exact decodeSignature_ofType accepted config arg

theorem decodeSignature_ok_iff {config : CodecConfig} {signature : Signature} {arg : Argument}
    {value : Value} : decodeSignature config signature arg = .ok value ↔
      ∃ type, signature.single = .ok type ∧ Decoding.decodeAs config type arg = .ok value := by
  simp [decodeSignature]

theorem decode_ok_iff {config : CodecConfig} {text : String} {arg : Argument} {value : Value} :
    decode config text arg = .ok value ↔ ∃ type, Grammar.caller.read text = .ok [type] ∧
      Decoding.decodeAs config type arg = .ok value := by
  rw [decode, parseSingle_bind_ok_iff]
  refine exists_congr fun type => and_congr_right fun single => ?_
  rw [decodeSignature_ofType (Grammar.read_single single).2]

/-- An argument is decoded under the text of a type that callers may write. -/
theorem decode_text_iff {config : CodecConfig} {type : CompleteType} {arg : Argument}
    {value : Value} : decode config type.text arg = .ok value ↔
      Grammar.caller.Accepts type ∧ Decoding.decodeAs config type arg = .ok value := by
  simp [decode_ok_iff]

/-- Several arguments are decoded one by one, under as many types. -/
theorem decodeAll_iff {config : CodecConfig} {text : String} {args : List Argument}
    {values : List Value} :
    decodeAll config text args = .ok values ↔
      ∃ types, Grammar.caller.read text = .ok types ∧ types.length = args.length ∧
        List.Forall₂ (fun slot value => Decoding.decodeAs config slot.1 slot.2 = .ok value)
          (types.zip args) values := by
  rw [decodeAll, bind_ok_iff]
  simp only [mapError_ok_iff]
  refine exists_congr fun types => and_congr_right fun _ => ?_
  by_cases arity : types.length = args.length
  · simp [arity, Decoding.decodeMembers_eq]
  · simp [arity]

end MessageArgs
