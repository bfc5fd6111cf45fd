import MessageArgs.Proofs.Encoding.WellFormed
import MessageArgs.Proofs.Frame.WellFormed

/-!
# Reachable arguments

The arguments that a program can get hold of: from the checked constructors, from the encoder under
any configuration and from frames with any bytes in them, in any combination. All of them are well
formed (`wellFormed_of_reachable`).
-/

namespace MessageArgs

namespace Argument

/-- An argument that a program can build or receive. The values that are encoded may carry any
arguments that the program has already. -/
inductive Reachable : Argument → Prop
  | scalar (value : Scalar) : Reachable (.scalar value)
  | ofScalar {tag : Tag} {value : Value} {arg : Argument} (made : ofScalar tag value = .ok arg) :
    Reachable arg
  | ofItems {element : Signature} {items : List Argument} {arg : Argument}
    (parts : ∀ item ∈ items, Reachable item) (made : ofItems element items = .ok arg) :
    Reachable arg
  | ofUniformItems {items : List Argument} {arg : Argument}
    (parts : ∀ item ∈ items, Reachable item) (made : ofUniformItems items = .ok arg) :
    Reachable arg
  | ofMembers {members : List Argument} {arg : Argument}
    (parts : ∀ member ∈ members, Reachable member) (made : ofMembers members = .ok arg) :
    Reachable arg
  | ofMembersAs {signatures : List Signature} {members : List Argument} {arg : Argument}
    (parts : ∀ member ∈ members, Reachable member)
    (made : ofMembersAs signatures members = .ok arg) : Reachable arg
  | ofEntry {key value arg : Argument} (keyPart : Reachable key) (valuePart : Reachable value)
    (made : ofEntry key value = .ok arg) : Reachable arg
  | variant {content : Argument} (part : Reachable content) : Reachable (.variant content)
  | encodeSignature {config : CodecConfig} {signature : Signature} {value : Value} {arg : Argument}
    (carried : ∀ given ∈ value.arguments, Reachable given)
    (made : encodeSignature config signature value = .ok arg) : Reachable arg
  | encode {config : CodecConfig} {text : String} {value : Value} {arg : Argument}
    (carried : ∀ given ∈ value.arguments, Reachable given)
    (made : encode config text value = .ok arg) : Reachable arg
  | encodeAll {config : CodecConfig} {text : String} {values : List Value} {args : List Argument}
    {arg : Argument} (carried : ∀ value ∈ values, ∀ given ∈ value.arguments, Reachable given)
    (made : encodeAll config text values = .ok args) (member : arg ∈ args) : Reachable arg
  | encodeInferred {config : CodecConfig} {values : List Value} {arg : Argument}
    (carried : ∀ value ∈ values, ∀ given ∈ value.arguments, Reachable given)
    (made : encodeInferred config values = .ok arg) : Reachable arg
  | ofFrame {frame : ByteArray} {arg : Argument} (made : Argument.ofFrame frame = .ok arg) :
    Reachable arg
  | ofEnvelope {frame : ByteArray} {envelope : Envelope} {arg : Argument}
    (made : Envelope.ofFrame frame = .ok envelope) (member : arg ∈ envelope.args) : Reachable arg

theorem ofScalar_wellFormed {tag : Tag} {value : Value} {arg : Argument}
    (h : Argument.ofScalar tag value = .ok arg) : arg.WellFormed := by
  cases tag with
  | basic type =>
    obtain ⟨scalar, -, rfl⟩ := map_ok_iff.1 h
    exact wellFormed_scalar scalar
  | _ => cases h

/-- Every way to get an argument keeps arguments well formed. -/
theorem Reachable.wellFormed {arg : Argument} (h : Reachable arg) : arg.WellFormed := by
  induction h with
  | scalar value => exact wellFormed_scalar value
  | ofScalar made => exact ofScalar_wellFormed made
  | ofItems _ made ih => exact ofItems_wellFormed made ih
  | ofUniformItems _ made ih => exact ofUniformItems_wellFormed made ih
  | ofMembers _ made ih => exact ofMembers_wellFormed made ih
  | ofMembersAs _ made ih => exact ofMembersAs_wellFormed made ih
  | ofEntry _ _ made _ ih => exact ofEntry_wellFormed made ih
  | variant _ ih => exact wellFormed_variant_iff.2 ih
  | encodeSignature _ made ih => exact encodeSignature_wellFormed made ih
  | encode _ made ih => exact encode_wellFormed made ih
  | encodeAll _ made member ih => exact encodeAll_wellFormed made ih _ member
  | encodeInferred _ made ih => exact encodeInferred_wellFormed made ih
  | ofFrame made => exact ofFrame_wellFormed made
  | ofEnvelope made member => exact envelope_ofFrame_wellFormed made _ member

/-- Reachable arguments are well formed: at every depth, stored signatures are those of the contents
and entries stand in arrays or alone. So each of them has exactly one type that arguments may store,
and the quick comparison with a text is that of the signature. -/
theorem wellFormed_of_reachable {arg : Argument} (h : Reachable arg) :
    arg.WellFormed ∧ (∃ type, Grammar.stored.read arg.signature.text = .ok [type]) ∧
      ∀ text, arg.hasSignature text = true ↔ arg.signature.text = text :=
  ⟨h.wellFormed, h.wellFormed.isStored, fun _ => hasSignature_iff⟩

/-- A dictionary of one variant, encoded from a value that carries an argument. -/
def sampleDictionary : Argument :=
  .array ⟨"\x7bsv\x7d"⟩ ⟨"a\x7bsv\x7d"⟩
    [.dictEntry ⟨"\x7bsv\x7d"⟩ (.string "on") (.variant (.scalar (.bool true)))]

theorem wellFormed_of_reachable_dictionary :
    Reachable sampleDictionary ∧ sampleDictionary.WellFormed ∧
      (∃ type, Grammar.stored.read sampleDictionary.signature.text = .ok [type]) ∧
      ∀ text, sampleDictionary.hasSignature text = true ↔
        sampleDictionary.signature.text = text := by
  have carried : ∀ given ∈
      (Value.map [(.atom (.string "on"), .arg (.scalar (.bool true)))]).arguments,
      Reachable given := by
    intro given member
    rw [List.mem_singleton.1 member]
    exact .scalar _
  have reachable : Reachable sampleDictionary :=
    @Reachable.encode .standard "a\x7bsv\x7d" _ _ carried (by rfl)
  exact ⟨reachable, wellFormed_of_reachable reachable⟩

end Argument

end MessageArgs
