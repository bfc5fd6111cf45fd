import MessageArgs.Proofs.Decoding.Lookup
import MessageArgs.Proofs.Encoding.Conforming

/-!
# Loosening the configuration

Each setting is asked in one place only: object paths are checked by `encodeScalar`, repeated keys
by `DuplicateKeys.apply`, which the encoder and the decoder share, and the depth of what is encoded
by `checkDepth`. In each of these places a success stays the same if less is refused (`takes`,
`ok_apply`, `ok_encodeComplete`). The recursions over the slots of a type carry the first two on to
whole values (`ok_encodeAs`, `ok_decodeAs`); they do not ask for the depth, so `LaxerThan` leaves it
out.
-/

namespace MessageArgs

open Decoding (decodeAs decodeEntry)
open Encoding (buildDictionary encodeAs encodeComplete encodeKey encodeScalar Takes)

namespace CodecConfig

/-- A configuration that refuses no more than another one, whatever the depth. -/
structure LaxerThan (laxer config : CodecConfig) : Prop where
  /-- Repeated keys are treated the same way, or they are no longer refused. -/
  duplicateKeys :
    laxer.duplicateKeys = config.duplicateKeys ∨ laxer.duplicateKeys = .lastWriteWins
  /-- Object paths are treated the same way, or they are no longer checked. -/
  validateObjectPaths :
    laxer.validateObjectPaths = config.validateObjectPaths ∨ laxer.validateObjectPaths = false

/-- A configuration that refuses no more than another one. -/
structure LooserThan (looser config : CodecConfig) : Prop extends looser.LaxerThan config where
  /-- Arguments may be at least as deep. -/
  maxDepth : config.maxDepth ≤ looser.maxDepth

namespace LaxerThan

variable {config laxer : CodecConfig} {type : CompleteType} {value : Value} {arg : Argument}

/-! ## Keys and object paths -/

theorem reject (lax : laxer.LaxerThan config) (strict : laxer.duplicateKeys = .reject) :
    config.duplicateKeys = .reject := by
  rcases lax.duplicateKeys with same | last
  · rw [← same, strict]
  · rw [strict] at last
    cases last

theorem validates (lax : laxer.LaxerThan config) (strict : laxer.validateObjectPaths = true) :
    config.validateObjectPaths = true := by
  rcases lax.validateObjectPaths with same | unchecked
  · rw [← same, strict]
  · rw [strict] at unchecked
    cases unchecked

/-- Items that are taken are taken again and stay the same. Items among which no key may repeat are
all kept, in their order. -/
theorem ok_apply {α : Type} (lax : laxer.LaxerThan config) {keyed : List (String × α)}
    {items : List α} (h : config.duplicateKeys.apply keyed = .ok items) :
    laxer.duplicateKeys.apply keyed = .ok items ∧
      (config.duplicateKeys = .reject → items = keyed.map Prod.snd) := by
  obtain ⟨distinct, rfl⟩ := DuplicateKeys.apply_iff.1 h
  constructor
  · exact DuplicateKeys.apply_iff.2 ⟨fun strict => distinct (lax.reject strict), rfl⟩
  · intro strict
    rw [DuplicateKeys.collapse_of_nodup (distinct strict)]

theorem takes (lax : laxer.LaxerThan config) {type : BasicType} {atom : Atom}
    (h : Takes config type atom) : Takes laxer type atom := by
  cases type with
  | objectPath =>
    cases atom with
    | string path => exact fun strict => h (lax.validates strict)
    | _ => exact h
  | _ => cases atom <;> exact h

theorem ok_encodeScalar (lax : laxer.LaxerThan config) {type : BasicType} {atom : Atom}
    {scalar : Scalar} (h : encodeScalar config type (.atom atom) = .ok scalar) :
    encodeScalar laxer type (.atom atom) = .ok scalar := by
  rw [Encoding.encodeScalar_iff] at h ⊢
  exact ⟨lax.takes h.1, h.2⟩

theorem ok_encodeKey (lax : laxer.LaxerThan config) {type : BasicType} {name : Scalar}
    (h : encodeKey config type value = .ok name) : encodeKey laxer type value = .ok name := by
  cases value with
  | atom atom => exact lax.ok_encodeScalar h
  | arg given => cases given <;> exact h
  | _ => exact h

/-! ## Encoding -/

theorem ok_buildDictionary (lax : laxer.LaxerThan config) {entry : CompleteType}
    {keyed : List (String × Argument)} (h : buildDictionary config entry keyed = .ok arg) :
    buildDictionary laxer entry keyed = .ok arg := by
  obtain ⟨distinct, built⟩ := Encoding.buildDictionary_iff.1 h
  exact Encoding.buildDictionary_iff.2 ⟨fun strict => distinct (lax.reject strict), built⟩

/-- What is encoded in a slot stays the same. -/
theorem ok_encodeAs (lax : laxer.LaxerThan config) (h : encodeAs config type value = .ok arg) :
    encodeAs laxer type value = .ok arg := by
  induction type using CompleteType.slots generalizing value arg with
  | basic type =>
    rw [Encoding.encodeAs_basic_iff] at h ⊢
    rcases h with kept | ⟨atom, scalar, rfl, encoded, rfl⟩
    · exact .inl kept
    · exact .inr ⟨atom, scalar, rfl, lax.ok_encodeScalar encoded, rfl⟩
  | variant => exact h
  | wildcard => exact h
  | dictionary key element ih =>
    rw [Encoding.encodeAs_dictionary_iff] at h ⊢
    rcases h with kept | ⟨pairs, keyed, rfl, entries, built⟩
    · exact .inl kept
    · refine .inr ⟨pairs, keyed, rfl, entries.imp ?_, lax.ok_buildDictionary built⟩
      intro pair keyed entry
      rw [Encoding.encodeEntry_iff] at entry ⊢
      obtain ⟨name, content, named, encoded, paired, tagged⟩ := entry
      exact ⟨name, content, lax.ok_encodeKey named, ih encoded, paired, tagged⟩
  | array element other ih =>
    rw [Encoding.encodeAs_array_iff other] at h ⊢
    rcases h with kept | ⟨items, args, rfl, encoded, built⟩
    · exact .inl kept
    · exact .inr ⟨items, args, rfl, encoded.imp fun _ _ => ih, built⟩
  | struct types ih =>
    rw [Encoding.encodeAs_struct_iff] at h ⊢
    rcases h with kept | ⟨items, args, rfl, arity, encoded, built⟩
    · exact .inl kept
    · refine .inr ⟨items, args, rfl, arity, ?_, built⟩
      exact forall₂_imp_mem encoded fun slot member _ => ih slot.1 (List.of_mem_zip member).1
  | entry key element =>
    rw [Encoding.encodeAs_entry_iff] at h ⊢
    exact h

/-! ## Decoding -/

theorem ok_decodeEntry {key : BasicType} {element : CompleteType} {keyed : String × Value × Value}
    (inside : ∀ {value arg}, decodeAs config element arg = .ok value →
      decodeAs laxer element arg = .ok value)
    (h : decodeEntry config key element arg = .ok keyed) :
    decodeEntry laxer key element arg = .ok keyed := by
  rw [Decoding.decodeEntry_iff] at h ⊢
  obtain ⟨signature, name, content, rfl, typed, decoded, named⟩ := h
  exact ⟨signature, name, content, rfl, typed, inside decoded, named⟩

/-- What is decoded in a slot stays the same. -/
theorem ok_decodeAs (lax : laxer.LaxerThan config) (h : decodeAs config type arg = .ok value) :
    decodeAs laxer type arg = .ok value := by
  induction type using CompleteType.slots generalizing value arg with
  | basic type =>
    rw [Decoding.decodeAs_basic_iff] at h ⊢
    exact h
  | variant => exact h
  | wildcard => exact h
  | dictionary key element ih =>
    rw [Decoding.decodeAs_dictionary_iff] at h ⊢
    obtain ⟨signature, items, keyed, shape, entries, distinct, rfl⟩ := h
    exact ⟨signature, items, keyed, shape, entries.imp fun _ _ => ok_decodeEntry ih,
      fun strict => distinct (lax.reject strict), rfl⟩
  | array element other ih =>
    rw [Decoding.decodeAs_array_iff other] at h ⊢
    obtain ⟨found, signature, items, values, shape, accepted, decoded, rfl⟩ := h
    exact ⟨found, signature, items, values, shape, accepted, decoded.imp fun _ _ => ih, rfl⟩
  | struct types ih =>
    rw [Decoding.decodeAs_struct_iff] at h ⊢
    obtain ⟨signature, members, values, shape, arity, accepted, decoded, rfl⟩ := h
    refine ⟨signature, members, values, shape, arity, accepted, ?_, rfl⟩
    exact forall₂_imp_mem decoded fun slot member _ => ih slot.1 (List.of_mem_zip member).1
  | entry key element => exact absurd h Decoding.decodeAs_entry

theorem ok_decodeSignature (lax : laxer.LaxerThan config) {signature : Signature}
    (h : decodeSignature config signature arg = .ok value) :
    decodeSignature laxer signature arg = .ok value := by
  obtain ⟨type, single, decoded⟩ := decodeSignature_ok_iff.1 h
  exact decodeSignature_ok_iff.2 ⟨type, single, lax.ok_decodeAs decoded⟩

theorem ok_decode (lax : laxer.LaxerThan config) {text : String}
    (h : decode config text arg = .ok value) : decode laxer text arg = .ok value := by
  obtain ⟨type, single, decoded⟩ := decode_ok_iff.1 h
  exact decode_ok_iff.2 ⟨type, single, lax.ok_decodeAs decoded⟩

theorem ok_decodeAll (lax : laxer.LaxerThan config) {text : String} {args : List Argument}
    {values : List Value} (h : decodeAll config text args = .ok values) :
    decodeAll laxer text args = .ok values := by
  obtain ⟨types, read, arity, decoded⟩ := decodeAll_iff.1 h
  exact decodeAll_iff.2 ⟨types, read, arity, decoded.imp fun _ _ => lax.ok_decodeAs⟩

theorem ok_dictLookup (lax : laxer.LaxerThan config) {text : String} {key : Value}
    (h : dictLookup config arg text key = .ok value) :
    dictLookup laxer arg text key = .ok value := by
  rw [Decoding.dictLookup_iff] at h ⊢
  obtain ⟨keyType, element, signature, items, name, content, read, shape, keyRead, last,
    decoded⟩ := h
  exact ⟨keyType, element, signature, items, name, content, read, shape, keyRead, last,
    lax.ok_decodeAs decoded⟩

end LaxerThan

/-! ## Depth -/

namespace LooserThan

variable {config looser : CodecConfig} {type : CompleteType} {value : Value} {arg : Argument}

theorem ok_encodeComplete (loose : looser.LooserThan config)
    (h : encodeComplete config type value = .ok arg) :
    encodeComplete looser type value = .ok arg := by
  obtain ⟨encoded, shallow⟩ := Encoding.encodeComplete_iff.1 h
  exact Encoding.encodeComplete_iff.2
    ⟨loose.ok_encodeAs encoded, Nat.le_trans shallow loose.maxDepth⟩

theorem ok_encodeSignature (loose : looser.LooserThan config) {signature : Signature}
    (h : encodeSignature config signature value = .ok arg) :
    encodeSignature looser signature value = .ok arg := by
  obtain ⟨type, single, encoded⟩ := encodeSignature_ok_iff.1 h
  exact encodeSignature_ok_iff.2 ⟨type, single, loose.ok_encodeComplete encoded⟩

theorem ok_encode (loose : looser.LooserThan config) {text : String}
    (h : encode config text value = .ok arg) : encode looser text value = .ok arg := by
  obtain ⟨type, single, encoded⟩ := encode_ok_iff.1 h
  exact encode_ok_iff.2 ⟨type, single, loose.ok_encodeComplete encoded⟩

theorem ok_encodeAll (loose : looser.LooserThan config) {text : String} {values : List Value}
    {args : List Argument} (h : encodeAll config text values = .ok args) :
    encodeAll looser text values = .ok args := by
  obtain ⟨types, read, arity, encoded⟩ := encodeAll_iff.1 h
  exact encodeAll_iff.2 ⟨types, read, arity, encoded.imp fun _ _ => loose.ok_encodeComplete⟩

theorem ok_encodeInferred (loose : looser.LooserThan config) {values : List Value}
    (h : encodeInferred config values = .ok arg) : encodeInferred looser values = .ok arg := by
  rw [encodeInferred_eq] at h ⊢
  exact loose.ok_encodeComplete h

end LooserThan

end CodecConfig

/-! ## Main result -/

/-- Loosening the configuration never changes a success, whichever way values are encoded, decoded
or looked up. The entries of a dictionary that is accepted because no key repeats are the given
ones in their order, and they stay so where keys may repeat. -/
theorem success_of_looserThan {config looser : CodecConfig} (loose : looser.LooserThan config) :
    (∀ text value arg, encode config text value = .ok arg →
      encode looser text value = .ok arg) ∧
    (∀ signature value arg, encodeSignature config signature value = .ok arg →
      encodeSignature looser signature value = .ok arg) ∧
    (∀ text values args, encodeAll config text values = .ok args →
      encodeAll looser text values = .ok args) ∧
    (∀ values arg, encodeInferred config values = .ok arg →
      encodeInferred looser values = .ok arg) ∧
    (∀ text arg value, decode config text arg = .ok value →
      decode looser text arg = .ok value) ∧
    (∀ signature arg value, decodeSignature config signature arg = .ok value →
      decodeSignature looser signature arg = .ok value) ∧
    (∀ text args values, decodeAll config text args = .ok values →
      decodeAll looser text args = .ok values) ∧
    (∀ dict text key value, dictLookup config dict text key = .ok value →
      dictLookup looser dict text key = .ok value) ∧
    ∀ (α : Type) (keyed : List (String × α)) (items : List α),
      config.duplicateKeys.apply keyed = .ok items →
        looser.duplicateKeys.apply keyed = .ok items ∧
          (config.duplicateKeys = .reject → items = keyed.map Prod.snd) :=
  ⟨fun _ _ _ => loose.ok_encode, fun _ _ _ => loose.ok_encodeSignature,
    fun _ _ _ => loose.ok_encodeAll, fun _ _ => loose.ok_encodeInferred,
    fun _ _ _ => loose.ok_decode, fun _ _ _ => loose.ok_decodeSignature,
    fun _ _ _ => loose.ok_decodeAll, fun _ _ _ _ => loose.ok_dictLookup,
    fun _ _ _ => loose.ok_apply⟩

/-- A dictionary that is accepted under all checks is encoded to the same entries without them, and
decoded to the same pairs. -/
theorem success_of_looserThan_dictionary :
    let strict : CodecConfig := { maxDepth := 2 }
    let looser : CodecConfig := ⟨64, .lastWriteWins, false⟩
    let pairs : Value := .map [(.atom (.string "/b"), .atom (.byte 1)),
      (.atom (.string "/a"), .atom (.byte 2))]
    let entry (path : String) (byte : UInt8) : Argument :=
      .dictEntry ⟨"\x7boy\x7d"⟩ (.objectPath path) (.scalar (.byte byte))
    let dict : Argument := .array ⟨"\x7boy\x7d"⟩ ⟨"a\x7boy\x7d"⟩ [entry "/b" 1, entry "/a" 2]
    (encode strict "a\x7boy\x7d" pairs = .ok dict ∧ encode looser "a\x7boy\x7d" pairs = .ok dict) ∧
      decode strict "a\x7boy\x7d" dict = .ok pairs ∧
      decode looser "a\x7boy\x7d" dict = .ok pairs := by
  intro strict looser pairs entry dict
  have loose : looser.LooserThan strict := ⟨⟨.inr rfl, .inr rfl⟩, by decide⟩
  obtain ⟨encodes, -, -, -, decodes, -⟩ := success_of_looserThan loose
  have encoded : encode strict "a\x7boy\x7d" pairs = .ok dict := rfl
  have decoded : decode strict "a\x7boy\x7d" dict = .ok pairs := rfl
  exact ⟨⟨encoded, encodes _ _ _ encoded⟩, decoded, decodes _ _ _ decoded⟩

end MessageArgs
