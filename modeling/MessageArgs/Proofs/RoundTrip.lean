import MessageArgs.Proofs.Decoding.Rules
import MessageArgs.Proofs.Encoding.Conforming

/-!
# Decoding undoes encoding

A value that has been encoded is decoded again under the same signature, wildcards included. What
comes back is `norm` of the value: singles are doubles, a variant layer around the content of a
variant is gone, an argument in the slot of another type is read out, and of pairs with the same
key the first place and the last pair remain.

Arguments that the value carries are passed on unread by the encoder, so the decoder must be able to
read those of them that do not stand for variants or wildcards (`Readable`). `comesBack` is the
induction over the type, and `comesBack_basic` to `comesBack_entry` are its cases.
-/

namespace MessageArgs

open Signature (ofType)

namespace Atom

/-- The double that a single widens to; other atoms stay as they are. -/
def widened : Atom → Atom
  | single x => .double x.widen
  | atom => atom

end Atom

namespace Value

/-! ## Normal forms -/

/-- What reading an argument out under a type gives. -/
def readOut (config : CodecConfig) (type : CompleteType) (given : Argument) : Value :=
  match decodeSignature config (ofType type) given with
  | .ok value => value
  | .error _ => .arg given

/-- What is left of a scalar, or of a key, when it has been encoded and decoded. -/
def normBasic (config : CodecConfig) (type : BasicType) : Value → Value
  | .arg given => readOut config (.basic type) given
  | .atom plain => .atom plain.widened
  | value => value

mutual

/-- What is left of a value of some type when it has been encoded and decoded. -/
def norm (config : CodecConfig) : CompleteType → Value → Value
  | .variant, .arg given => .arg given.content
  | .wildcard, .arg given => .arg given
  | .basic type, value => normBasic config type value
  | type, .arg given => readOut config type given
  | .array (.entry key element), .map pairs =>
    .map ((DuplicateKeys.collapse (pairs.map fun pair =>
      ((Encoding.keyScalar key pair.1).fingerprint,
        (normBasic config key pair.1, norm config element pair.2)))).map Prod.snd)
  | .array (.entry _ _), value => value
  | .array element, .seq items => .seq (items.map fun item => norm config element item)
  | .struct types, .seq items => .seq (normAll config types items)
  | _, value => value

/-- What is left of some values of as many types. -/
def normAll (config : CodecConfig) : List CompleteType → List Value → List Value
  | type :: types, value :: values => norm config type value :: normAll config types values
  | _, _ => []

end

/-- The decoder can read an argument that is given under a type. -/
def ReadsOut (config : CodecConfig) (type : CompleteType) (given : Argument) : Prop :=
  ∃ value, decodeSignature config (ofType type) given = .ok value

/-- The decoder can read an argument that is given for a scalar or for a key. -/
def ReadableBasic (config : CodecConfig) (type : BasicType) : Value → Prop
  | .arg given => ReadsOut config (.basic type) given
  | _ => True

mutual

/-- The decoder can read the arguments that a value carries in slots of other types than variants
and wildcards. -/
def Readable (config : CodecConfig) : CompleteType → Value → Prop
  | .variant, _ => True
  | .wildcard, _ => True
  | .basic type, value => ReadableBasic config type value
  | type, .arg given => ReadsOut config type given
  | .array (.entry key element), .map pairs =>
    ∀ pair ∈ pairs, ReadableBasic config key pair.1 ∧ Readable config element pair.2
  | .array (.entry _ _), _ => True
  | .array element, .seq items => ∀ item ∈ items, Readable config element item
  | .struct types, .seq items => AllReadable config types items
  | _, _ => True

/-- Readability of values of as many types. -/
def AllReadable (config : CodecConfig) : List CompleteType → List Value → Prop
  | type :: types, value :: values => Readable config type value ∧ AllReadable config types values
  | _, _ => True

end

theorem normAll_eq (config : CodecConfig) (types : List CompleteType) (values : List Value) :
    normAll config types values = (types.zip values).map fun slot => norm config slot.1 slot.2 := by
  induction types generalizing values with
  | nil => rfl
  | cons type types ih =>
    cases values with
    | nil => rfl
    | cons value values => rw [normAll, ih, List.zip_cons_cons, List.map_cons]

theorem allReadable_iff {config : CodecConfig} {types : List CompleteType} {values : List Value} :
    AllReadable config types values ↔ ∀ slot ∈ types.zip values, Readable config slot.1 slot.2 := by
  induction types generalizing values with
  | nil => simp [AllReadable]
  | cons type types ih =>
    cases values with
    | nil => simp [AllReadable]
    | cons value values => rw [AllReadable, ih, List.zip_cons_cons, List.forall_mem_cons]

variable {config : CodecConfig}

theorem norm_seq {element : CompleteType} (items : List Value) (other : element.tag ≠ .dictEntry) :
    norm config (.array element) (.seq items) = .seq (items.map (norm config element)) := by
  cases element with
  | entry => exact absurd rfl other
  | _ => rfl

theorem readable_seq_iff {element : CompleteType} {items : List Value}
    (other : element.tag ≠ .dictEntry) : Readable config (.array element) (.seq items) ↔
      ∀ item ∈ items, Readable config element item := by
  cases element with
  | entry => exact absurd rfl other
  | _ => exact Iff.rfl

/-- The pairs of a map with different keys keep their places. -/
theorem norm_map_of_nodup {key : BasicType} {element : CompleteType} {pairs : List (Value × Value)}
    (distinct : (pairs.map fun pair => (Encoding.keyScalar key pair.1).fingerprint).Nodup) :
    norm config (.array (.entry key element)) (.map pairs) =
      .map (pairs.map fun pair => (normBasic config key pair.1, norm config element pair.2)) := by
  rw [norm, DuplicateKeys.collapse_of_nodup, List.map_map]
  · rfl
  · rw [List.map_map]
    exact distinct

theorem norm_array_arg {element : CompleteType} {given : Argument} :
    norm config (.array element) (.arg given) = readOut config (.array element) given := by
  cases element <;> rfl

theorem readable_array_arg_iff {element : CompleteType} {given : Argument} :
    Readable config (.array element) (.arg given) ↔ ReadsOut config (.array element) given := by
  cases element <;> exact Iff.rfl

end Value

namespace Decoding

open Encoding (encodeAs encodeKey Takes scalarOf)
open Value (norm normBasic readOut Readable ReadableBasic ReadsOut)

variable {config : CodecConfig}

/-! ## Slots -/

/-- An argument that was given under a type is read out. -/
theorem decodeAs_given {grammar : Grammar} {type : CompleteType} {given : Argument}
    (accepted : grammar.Accepts type) (readable : ReadsOut config type given) :
    decodeAs config type given = .ok (readOut config type given) := by
  obtain ⟨value, decoded⟩ := readable
  rw [readOut, decoded, ← decodeSignature_ofType accepted, decoded]

theorem toAtom_scalarOf (type : BasicType) (atom : Atom) :
    (scalarOf type atom).toAtom = atom.widened := by
  cases type <;> cases atom <;> rfl

theorem decodeAs_scalarOf {type : BasicType} {atom : Atom} (h : Takes config type atom) :
    decodeAs config (.basic type) (.scalar (scalarOf type atom)) = .ok (.atom atom.widened) := by
  rw [decodeAs_basic_iff]
  exact ⟨_, rfl, Encoding.type_scalarOf h, by rw [toAtom_scalarOf]⟩

/-- A key comes back as its normal form. -/
theorem normBasic_of_encodeKey {type : BasicType} {value : Value} {name : Scalar}
    (h : encodeKey config type value = .ok name) :
    name.type = type ∧ normBasic config type value = .atom name.toAtom := by
  obtain ⟨conforms, rfl⟩ := Encoding.encodeKey_iff.1 h
  refine ⟨Encoding.type_keyScalar conforms, ?_⟩
  cases value with
  | atom atom =>
    show Value.atom atom.widened = .atom (scalarOf type atom).toAtom
    rw [toAtom_scalarOf]
  | arg given =>
    cases given with
    | scalar name =>
      have read : decodeAs config (.basic type) (.scalar name) = .ok (.atom name.toAtom) :=
        decodeAs_basic_iff.2 ⟨name, rfl, conforms, rfl⟩
      show readOut config (.basic type) (.scalar name) = .atom name.toAtom
      rw [readOut, decodeSignature_ofType (Grammar.accepts_basic .caller type), read]
    | _ => cases conforms
  | _ => cases conforms

/-- What is encoded under a type without wildcards has that type. -/
theorem signature_of_encodeAs {type : CompleteType} {value : Value} {arg : Argument}
    (accepted : Grammar.caller.withWildcard.Accepts type) (absent : type.hasWildcard = false)
    (h : encodeAs config type value = .ok arg) : arg.signature = ofType type := by
  have resolved : Grammar.caller.Accepts type := accepted.resolved absent
  obtain ⟨conforms, rfl⟩ := (Encoding.encodeAs_iff resolved).1 h
  exact Encoding.signature_tree conforms resolved.ne_wildcard

/-- The normal form of a pair, with the fingerprint of its key. -/
def normEntry (config : CodecConfig) (key : BasicType) (element : CompleteType)
    (pair : Value × Value) : String × Value × Value :=
  ((Encoding.keyScalar key pair.1).fingerprint,
    (normBasic config key pair.1, norm config element pair.2))

/-- What is encoded under a type is decoded as the normal form of the value. -/
def ComesBack (config : CodecConfig) (type : CompleteType) : Prop :=
  ∀ value arg, encodeAs config type value = .ok arg → Readable config type value →
    decodeAs config type arg = .ok (norm config type value)

/-- The entry that a pair was encoded as is decoded as the normal form of the pair. -/
theorem decodeEntry_of_encodeEntry {key : BasicType} {element : CompleteType}
    {pair : Value × Value} {keyed : String × Argument} (ih : ComesBack config element)
    (h : Encoding.encodeEntry config key element pair = .ok keyed)
    (readable : Readable config element pair.2) :
    keyed.1 = (normEntry config key element pair).1 ∧
      decodeEntry config key element keyed.2 = .ok (normEntry config key element pair) := by
  obtain ⟨name, content, named, encoded, made, fingerprint⟩ := Encoding.encodeEntry_iff.1 h
  obtain ⟨signature, -, entry⟩ := Argument.ofPair_iff.1 made
  obtain ⟨typed, normal⟩ := normBasic_of_encodeKey named
  obtain ⟨-, rfl⟩ := Encoding.encodeKey_iff.1 named
  have decoded := ih pair.2 content encoded readable
  exact ⟨fingerprint, decodeEntry_iff.2 ⟨signature, _, content, entry, typed, decoded, rfl, normal⟩⟩

/-- The array that the encoder builds is one that the decoder reads with the same type. -/
theorem acceptsElement_of_buildArray {element : CompleteType} {items : List Argument}
    {arg : Argument} (h : Encoding.buildArray element items = .ok arg) :
    ∃ found signature, arg = .array found signature items ∧
      acceptsElement element found = true := by
  by_cases wildcard : element = .wildcard
  · subst wildcard
    cases items with
    | nil => cases Encoding.buildArray_wildcard_iff.1 h
    | cons first rest =>
      obtain ⟨signature, -, -, rfl⟩ := Argument.ofItems_iff.1 (Encoding.buildArray_wildcard_iff.1 h)
      exact ⟨_, _, rfl, rfl⟩
  · obtain ⟨-, made⟩ := (Encoding.buildArray_iff wildcard).1 h
    obtain ⟨-, -, rfl⟩ := Encoding.ofItems_ofType_iff.1 made
    exact ⟨_, _, rfl, (acceptsElement_iff wildcard).2 rfl⟩

theorem comesBack_basic (type : BasicType) : ComesBack config (.basic type) := by
  intro value arg h readable
  rcases Encoding.encodeAs_basic_iff.1 h with ⟨rfl, -⟩ | ⟨atom, scalar, rfl, encoded, rfl⟩
  · exact decodeAs_given (Grammar.accepts_basic .caller type) readable
  · obtain ⟨takes, rfl⟩ := Encoding.encodeScalar_iff.1 encoded
    exact decodeAs_scalarOf takes

theorem comesBack_variant : ComesBack config .variant := by
  intro value arg h _
  obtain ⟨given, rfl, rfl⟩ := Encoding.encodeAs_variant_iff.1 h
  exact decodeAs_variant_iff.2 ⟨given.content, rfl, rfl⟩

theorem comesBack_wildcard : ComesBack config .wildcard := by
  intro value arg h _
  cases Encoding.encodeAs_wildcard_iff.1 h
  exact decodeAs_wildcard_iff.2 rfl

/-- The entries that remain of an encoded map are decoded as the pairs that remain of its normal
form, and these have distinct keys. -/
theorem comesBack_dictionary {key : BasicType} {element : CompleteType}
    (accepted : Grammar.widest.Accepts (.array (.entry key element)))
    (ih : ComesBack config element) : ComesBack config (.array (.entry key element)) := by
  intro value arg h readable
  rcases Encoding.encodeAs_dictionary_iff.1 h with ⟨rfl, -⟩ | ⟨pairs, keyed, rfl, encoded, built⟩
  · exact decodeAs_given accepted readable
  · obtain ⟨-, made⟩ := Encoding.buildDictionary_iff.1 built
    obtain ⟨-, -, rfl⟩ := Encoding.ofItems_ofType_iff.1 made
    have related : List.Forall₂
        (fun entry normal => entry.1 = normal.1 ∧
          decodeEntry config key element entry.2 = .ok normal)
        keyed (pairs.map (normEntry config key element)) := by
      refine forall₂_map_right encoded fun pair member keyed entry => ?_
      exact decodeEntry_of_encodeEntry ih entry (readable pair member).2
    have remaining := DuplicateKeys.collapse_forall₂ And.left related
    have distinct := DuplicateKeys.nodup_collapse (pairs.map (normEntry config key element))
    refine decodeAs_dictionary_iff.2
      ⟨_, _, _, rfl, List.forall₂_map_left_iff.2 (remaining.imp fun _ _ => And.right),
        fun _ => distinct, ?_⟩
    rw [DuplicateKeys.collapse_of_nodup distinct]
    rfl

theorem comesBack_array {element : CompleteType}
    (accepted : Grammar.widest.Accepts (.array element)) (other : element.tag ≠ .dictEntry)
    (ih : ComesBack config element) : ComesBack config (.array element) := by
  intro value arg h readable
  rcases (Encoding.encodeAs_array_iff other).1 h with ⟨rfl, -⟩ | ⟨items, built, rfl, encoded, made⟩
  · rw [Value.norm_array_arg]
    exact decodeAs_given accepted (Value.readable_array_arg_iff.1 readable)
  · rw [Value.readable_seq_iff other] at readable
    obtain ⟨found, signature, rfl, fits⟩ := acceptsElement_of_buildArray made
    refine (decodeAs_array_iff other).2 ⟨_, _, _, _, rfl, fits, ?_, Value.norm_seq items other⟩
    refine forall₂_map_right encoded fun item member result encoded => ?_
    exact ih item result encoded (readable item member)

/-- The decoder checks the types of all members before it reads any of them, so it is both that an
encoded member has the type of its slot and that it comes back. -/
theorem comesBack_struct {types : List CompleteType}
    (accepted : Grammar.caller.withWildcard.Accepts (.struct types))
    (ih : ∀ type ∈ types, ComesBack config type) : ComesBack config (.struct types) := by
  intro value arg h readable
  rcases Encoding.encodeAs_struct_iff.1 h with ⟨rfl, -⟩ | ⟨items, built, rfl, arity, encoded, made⟩
  · exact decodeAs_given accepted readable
  · obtain ⟨-, stored, -, rfl⟩ := Argument.ofMembers_iff.1 made
    have readableAll := Value.allReadable_iff.1 readable
    have each : ∀ slot ∈ types.zip items, ∀ result, encodeAs config slot.1 slot.2 = .ok result →
        (slot.1.hasWildcard = false → result.signature = ofType slot.1) ∧
          decodeAs config slot.1 result = .ok (norm config slot.1 slot.2) := by
      intro slot member result encoded
      have listed : slot.1 ∈ types := (List.of_mem_zip member).1
      have inside : Grammar.caller.withWildcard.Accepts slot.1 :=
        Grammar.accepts_member accepted listed id
      exact ⟨fun absent => signature_of_encodeAs inside absent encoded,
        ih slot.1 listed slot.2 result encoded (readableAll slot member)⟩
    obtain ⟨arity', related⟩ := forall₂_zip
      (S := fun slot value => (slot.1.hasWildcard = false → slot.2.signature = ofType slot.1) ∧
        decodeAs config slot.1 slot.2 = .ok value) arity encoded each
    obtain ⟨signatures, decoded⟩ := (List.forall₂_and_left _ _).1 related
    refine decodeAs_struct_iff.2
      ⟨_, _, _, rfl, arity', acceptsMembers_iff.2 signatures, decoded, ?_⟩
    rw [← Value.normAll_eq]
    rfl

theorem comesBack_entry {key : BasicType} {element : CompleteType}
    (accepted : Grammar.widest.Accepts (.entry key element)) :
    ComesBack config (.entry key element) := by
  intro value arg h readable
  obtain ⟨rfl, -⟩ := Encoding.encodeAs_entry_iff.1 h
  exact decodeAs_given accepted readable

/-- Decoding undoes encoding in every slot. -/
theorem comesBack {type : CompleteType} (accepted : Grammar.widest.Accepts type) :
    ComesBack config type := by
  induction type using CompleteType.slots with
  | basic type => exact comesBack_basic type
  | variant => exact comesBack_variant
  | wildcard => exact comesBack_wildcard
  | dictionary key element ih =>
    have entries : Grammar.widest.Accepts (.entry key element) :=
      Grammar.accepts_element accepted id rfl
    exact comesBack_dictionary accepted (ih (Grammar.accepts_value entries id))
  | array element other ih =>
    exact comesBack_array accepted other (ih (Grammar.accepts_element accepted id rfl))
  | struct types ih =>
    refine comesBack_struct (accepted.narrow id (by simp [CompleteType.tag])) fun type member => ?_
    exact ih type member (Grammar.accepts_member accepted member id)
  | entry key element => exact comesBack_entry accepted

/-- Where repeated keys are refused, the pairs of a map keep their places. -/
theorem norm_map_of_reject {key : BasicType} {element : CompleteType}
    {pairs : List (Value × Value)} {arg : Argument} (strict : config.duplicateKeys = .reject)
    (h : encodeAs config (.array (.entry key element)) (.map pairs) = .ok arg) :
    norm config (.array (.entry key element)) (.map pairs) =
      .map (pairs.map fun pair => (normBasic config key pair.1, norm config element pair.2)) := by
  rcases Encoding.encodeAs_dictionary_iff.1 h with ⟨impossible, -⟩ | ⟨_, keyed, same, encoded, made⟩
  · cases impossible
  · cases same
    obtain ⟨distinct, -⟩ := Encoding.buildDictionary_iff.1 made
    have names : keyed.map Prod.fst =
        pairs.map fun pair => (Encoding.keyScalar key pair.1).fingerprint := by
      rw [← List.forall₂_eq_eq_eq, List.forall₂_map_left_iff]
      refine forall₂_map_right encoded fun pair _ keyed entry => ?_
      obtain ⟨_, _, named, -, -, fingerprint⟩ := Encoding.encodeEntry_iff.1 entry
      rw [fingerprint, (Encoding.encodeKey_iff.1 named).2]
    exact Value.norm_map_of_nodup (names ▸ distinct strict)

end Decoding

/-- Decoding undoes encoding, up to what `Value.norm` says. -/
theorem decodeSignature_encodeSignature {config : CodecConfig} {signature : Signature}
    {type : CompleteType} {value : Value} {arg : Argument}
    (single : Grammar.caller.withWildcard.read signature.text = .ok [type])
    (readable : value.Readable config type)
    (encoded : encodeSignature config signature value = .ok arg) :
    decodeSignature config signature arg = .ok (value.norm config type) := by
  obtain ⟨rfl, accepted⟩ := Signature.eq_ofType single
  rw [encodeSignature_ofType accepted, Encoding.encodeComplete_iff] at encoded
  rw [decodeSignature_ofType accepted]
  have wide : Grammar.widest.Accepts type := accepted.mono id fun _ => rfl
  exact Decoding.comesBack wide value arg encoded.1 readable

/-- A number, and a dictionary whose key comes twice: the last content, without its variant layer,
comes back in the first place. -/
theorem decodeSignature_encodeSignature_repeatedKey :
    let config : CodecConfig := { duplicateKeys := .lastWriteWins }
    let value : Value := .seq [.atom (.uint16 7), .map [
      (.atom (.string "on"), .arg (.scalar (.byte 1))),
      (.atom (.string "on"), .arg (.variant (.scalar (.bool true))))]]
    ∃ arg, encodeSignature config ⟨"(qa\x7bsv\x7d)"⟩ value = .ok arg ∧
      decodeSignature config ⟨"(qa\x7bsv\x7d)"⟩ arg =
        .ok (.seq [.atom (.uint16 7), .map [
          (.atom (.string "on"), .arg (.scalar (.bool true)))]]) := by
  intro config value
  have single : Grammar.caller.withWildcard.read "(qa\x7bsv\x7d)" =
      .ok [.struct [.basic .uint16, .array (.entry .string .variant)]] := rfl
  have readable :
      value.Readable config (.struct [.basic .uint16, .array (.entry .string .variant)]) := by
    refine ⟨trivial, ?_, trivial⟩
    intro pair member
    have given : pair.1 = .atom (.string "on") := by
      rcases List.mem_cons.1 member with rfl | member
      · rfl
      · rw [List.mem_singleton.1 member]
    rw [given]
    exact ⟨trivial, trivial⟩
  exact ⟨_, rfl, decodeSignature_encodeSignature single readable rfl⟩

end MessageArgs
