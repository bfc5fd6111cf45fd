import MessageArgs.Proofs.Decoding.Outcome
import MessageArgs.Proofs.Encoding.WellFormed

/-!
# Repeated keys in encoded arguments

Where the configuration refuses repeated keys, a dictionary that is encoded from a map has none. But
there is a second way to get a dictionary: an array of wildcards takes its type from its first item,
and the items may be entries that are built already. Their keys are not compared.

`encodeAs_repeatsKey_iff` says that this is the only way in. If no argument that a value carries
repeats a key, the result repeats one exactly if some array of wildcards gathers entries with one
key twice (`GathersRepeats`). So there are no repeated keys under a type without wildcards.
-/

namespace MessageArgs

open Signature (ofType)

/-- A well-formed argument none of whose dictionaries has a key twice, inside variants or not. -/
def Argument.KeysDistinct (arg : Argument) : Prop :=
  arg.WellFormed ∧ ¬ arg.RepeatsKey true

/-- All arguments that a value carries have distinct keys. -/
def Value.KeysDistinct (value : Value) : Prop :=
  ∀ given ∈ value.arguments, given.KeysDistinct

theorem Value.KeysDistinct.wellFormed {value : Value} (h : value.KeysDistinct) :
    value.WellFormed :=
  fun given member => (h given member).1

/-- The layer that a slot for variants takes off has no keys. -/
theorem Argument.repeatsKey_content_iff {arg : Argument} :
    arg.content.RepeatsKey true ↔ arg.RepeatsKey true := by
  cases arg with
  | variant inner =>
    rw [repeatsKey_variant_iff, and_iff_right rfl]
    rfl
  | _ => rfl

namespace Encoding

variable {config : CodecConfig}

/-! ## Gathered entries -/

/-- The fingerprint of the key of an entry that is built already. -/
def givenKey? : Value → Option String
  | .arg given => given.keyName?
  | _ => none

mutual

/-- Some array of wildcards is given entries with one key twice. -/
def GathersRepeats : CompleteType → Value → Prop
  | .array .wildcard, .seq items => ¬ (items.filterMap givenKey?).Nodup
  | .array (.entry _ element), .map pairs => ∃ pair ∈ pairs, GathersRepeats element pair.2
  | .array element, .seq items => ∃ item ∈ items, GathersRepeats element item
  | .struct types, .seq items => MembersGatherRepeats types items
  | _, _ => False

/-- Some member, as far as both lists go, gathers entries with one key twice. -/
def MembersGatherRepeats : List CompleteType → List Value → Prop
  | type :: types, value :: values =>
    GathersRepeats type value ∨ MembersGatherRepeats types values
  | _, _ => False

end

theorem membersGatherRepeats_iff {types : List CompleteType} {values : List Value} :
    MembersGatherRepeats types values ↔
      ∃ slot ∈ types.zip values, GathersRepeats slot.1 slot.2 := by
  induction types generalizing values with
  | nil => simp [MembersGatherRepeats]
  | cons type types ih =>
    cases values with
    | nil => simp [MembersGatherRepeats]
    | cons value values =>
      rw [MembersGatherRepeats, ih, List.zip_cons_cons, List.exists_mem_cons_iff]

theorem gathersRepeats_array_iff {element : CompleteType} {items : List Value}
    (resolved : element ≠ .wildcard) :
    GathersRepeats (.array element) (.seq items) ↔ ∃ item ∈ items, GathersRepeats element item := by
  cases element with
  | wildcard => exact absurd rfl resolved
  | _ =>
    rw [GathersRepeats]
    nofun

/-- Arguments that are built already gather nothing. -/
theorem not_gathersRepeats_arg (type : CompleteType) (given : Argument) :
    ¬ GathersRepeats type (.arg given) := by
  cases type with
  | array element => cases element <;> simp [GathersRepeats]
  | _ => simp [GathersRepeats]

theorem hasWildcard_of_mem {types : List CompleteType}
    (resolved : CompleteType.hasWildcardAny types = false) :
    ∀ type ∈ types, type.hasWildcard = false := by
  induction types with
  | nil => simp
  | cons type types ih =>
    rw [CompleteType.hasWildcardAny, Bool.or_eq_false_iff] at resolved
    rw [List.forall_mem_cons]
    exact ⟨resolved.1, ih resolved.2⟩

/-- Without wildcards nothing is gathered. -/
theorem not_gathersRepeats_of_resolved {type : CompleteType} (resolved : type.hasWildcard = false)
    (value : Value) : ¬ GathersRepeats type value := by
  induction type using CompleteType.slots generalizing value with
  | basic | variant | wildcard | entry => simp [GathersRepeats]
  | dictionary key element ih =>
    cases value with
    | map pairs =>
      rw [GathersRepeats]
      rintro ⟨pair, -, repeats⟩
      exact ih resolved pair.2 repeats
    | _ => simp [GathersRepeats]
  | array element other ih =>
    cases value with
    | seq items =>
      have simple : element ≠ .wildcard := by
        rintro rfl
        cases resolved
      rw [gathersRepeats_array_iff simple]
      rintro ⟨item, -, repeats⟩
      exact ih resolved item repeats
    | _ => cases element <;> first | exact absurd rfl other | simp [GathersRepeats]
  | struct types ih =>
    cases value with
    | seq items =>
      rw [GathersRepeats, membersGatherRepeats_iff]
      rintro ⟨slot, member, repeats⟩
      have listed := (List.of_mem_zip member).1
      exact ih slot.1 listed (hasWildcard_of_mem resolved slot.1 listed) slot.2 repeats
    | _ => simp [GathersRepeats]

/-! ## What encoding comes to -/

/-- What is encoded under a type repeats a key exactly if entries with one are gathered. -/
def RepeatsOnlyGathered (config : CodecConfig) (type : CompleteType) : Prop :=
  ∀ value arg, value.KeysDistinct → encodeAs config type value = .ok arg →
    (arg.RepeatsKey true ↔ GathersRepeats type value)

/-- An argument that is taken as it is neither repeats nor gathers. -/
theorem repeatsKey_given {type : CompleteType} {given : Argument}
    (distinct : (Value.arg given).KeysDistinct) :
    given.RepeatsKey true ↔ GathersRepeats type (.arg given) :=
  iff_of_false (Value.arguments_arg.1 distinct).2 (not_gathersRepeats_arg type given)

/-- The fingerprints that the policy compares are those of the keys. -/
theorem keyNames_of_encodeEntry {key : BasicType} {element : CompleteType}
    {pairs : List (Value × Value)} {keyed : List (String × Argument)}
    (encoded : List.Forall₂ (fun pair keyed => encodeEntry config key element pair = .ok keyed)
      pairs keyed) : (keyed.map Prod.snd).filterMap Argument.keyName? = keyed.map Prod.fst := by
  refine Argument.filterMap_keyName? (forall_right encoded fun pair _ entry encoded => ?_)
  obtain ⟨name, content, -, -, paired, same⟩ := encodeEntry_iff.1 encoded
  obtain ⟨stored, -, built⟩ := Argument.ofPair_iff.1 paired
  rw [built, same, Argument.keyName?]

theorem repeatsOnlyGathered_dictionary {key : BasicType} {element : CompleteType}
    (strict : config.duplicateKeys = .reject) (ih : RepeatsOnlyGathered config element) :
    RepeatsOnlyGathered config (.array (.entry key element)) := by
  intro value arg distinct h
  rcases encodeAs_dictionary_iff.1 h with ⟨rfl, -⟩ | ⟨pairs, keyed, rfl, encoded, built⟩
  · exact repeatsKey_given distinct
  · obtain ⟨compared, made⟩ := buildDictionary_iff.1 built
    have names := compared strict
    rw [DuplicateKeys.collapse_of_nodup names] at made
    obtain ⟨-, -, rfl⟩ := ofItems_ofType_iff.1 made
    have own : (Argument.array (ofType (.entry key element))
        (ofType (.array (.entry key element))) (keyed.map Prod.snd)).keyNames.Nodup := by
      rwa [Argument.keyNames, keyNames_of_encodeEntry encoded]
    rw [Argument.repeatsKey_array_iff, or_iff_right (not_not_intro own), GathersRepeats]
    simp only [List.mem_map, exists_exists_and_eq_and]
    refine exists_right_iff encoded ?_
    intro pair member keyed entry
    obtain ⟨name, content, -, inner, paired, -⟩ := encodeEntry_iff.1 entry
    obtain ⟨stored, -, same⟩ := Argument.ofPair_iff.1 paired
    rw [same, Argument.repeatsKey_entry_iff]
    exact ih pair.2 content (Value.arguments_map.1 distinct pair member).2 inner

theorem eq_array_of_ofUniformItems {items : List Argument} {arg : Argument}
    (h : Argument.ofUniformItems items = .ok arg) :
    ∃ element signature, arg = .array element signature items := by
  cases items with
  | nil => cases h
  | cons first rest =>
    obtain ⟨signature, -, -, rfl⟩ := Argument.ofItems_iff.1 h
    exact ⟨_, signature, rfl⟩

/-- An array of wildcards is the one place where keys are not compared. -/
theorem repeatsOnlyGathered_wildcards : RepeatsOnlyGathered config (.array .wildcard) := by
  intro value arg distinct h
  rcases (encodeAs_array_iff (by simp [CompleteType.tag])).1 h with
    ⟨rfl, -⟩ | ⟨items, built, rfl, encoded, made⟩
  · exact repeatsKey_given distinct
  · obtain ⟨element, signature, rfl⟩ :=
      eq_array_of_ofUniformItems (buildArray_wildcard_iff.1 made)
    simp only [encodeAs_wildcard_iff] at encoded
    have names : built.filterMap Argument.keyName? = items.filterMap givenKey? := by
      clear made h distinct
      induction encoded with
      | nil => rfl
      | cons same _ ih =>
        subst same
        rw [List.filterMap_cons, List.filterMap_cons, ih]
        rfl
    have inside : ∀ item ∈ built, ¬ item.RepeatsKey true := by
      refine forall_right encoded ?_
      rintro item present given rfl
      exact (Value.arguments_arg.1 (Value.arguments_seq.1 distinct _ present)).2
    have none : ¬ ∃ item ∈ built, item.RepeatsKey true := by simpa using inside
    rw [Argument.repeatsKey_array_iff, or_iff_left none, Argument.keyNames, names, GathersRepeats]

theorem repeatsOnlyGathered_array {element : CompleteType} (other : element.tag ≠ .dictEntry)
    (resolved : element ≠ .wildcard) (ih : RepeatsOnlyGathered config element) :
    RepeatsOnlyGathered config (.array element) := by
  intro value arg distinct h
  rcases (encodeAs_array_iff other).1 h with ⟨rfl, -⟩ | ⟨items, built, rfl, encoded, made⟩
  · exact repeatsKey_given distinct
  · obtain ⟨-, typed, rfl⟩ := ofItems_ofType_iff.1 ((buildArray_iff resolved).1 made).2
    have inside := Value.arguments_seq.1 distinct
    have formed : ∀ item ∈ built, item.WellFormed := by
      refine forall_right encoded ?_
      intro item member built encoded
      exact encodeAs_wellFormed encoded fun given present => (inside item member given present).1
    have noEntries : ∀ item ∈ built, item.tag ≠ .dictEntry := by
      intro item member
      rwa [← (formed item member).tag_eq (typed item member)]
    have own :
        (Argument.array (ofType element) (ofType (.array element)) built).keyNames.Nodup := by
      rw [Argument.keyNames_of_tag_ne noEntries]
      exact List.nodup_nil
    rw [Argument.repeatsKey_array_iff, or_iff_right (not_not_intro own),
      gathersRepeats_array_iff resolved]
    exact exists_right_iff encoded fun item member result encoded =>
      ih item result (inside item member) encoded

theorem repeatsOnlyGathered_struct {types : List CompleteType}
    (ih : ∀ type ∈ types, RepeatsOnlyGathered config type) :
    RepeatsOnlyGathered config (.struct types) := by
  intro value arg distinct h
  rcases encodeAs_struct_iff.1 h with ⟨rfl, -⟩ | ⟨items, built, rfl, -, encoded, made⟩
  · exact repeatsKey_given distinct
  · obtain ⟨-, stored, -, rfl⟩ := Argument.ofMembers_iff.1 made
    have inside := Value.arguments_seq.1 distinct
    rw [Argument.repeatsKey_struct_iff, GathersRepeats, membersGatherRepeats_iff]
    refine exists_right_iff encoded ?_
    intro slot member built encoded
    obtain ⟨listed, present⟩ := List.of_mem_zip member
    exact ih slot.1 listed slot.2 built (inside slot.2 present) encoded

/-- Encoding under the strict policy brings in repeated keys by gathering entries, and in no other
way. -/
theorem encodeAs_repeatsKey_iff (strict : config.duplicateKeys = .reject) (type : CompleteType) :
    RepeatsOnlyGathered config type := by
  induction type using CompleteType.slots with
  | basic type =>
    intro value arg distinct h
    rcases encodeAs_basic_iff.1 h with ⟨rfl, -⟩ | ⟨atom, scalar, rfl, -, rfl⟩
    · exact repeatsKey_given distinct
    · exact iff_of_false (Argument.not_repeatsKey_scalar scalar) (by simp [GathersRepeats])
  | variant =>
    intro value arg distinct h
    obtain ⟨given, rfl, rfl⟩ := encodeAs_variant_iff.1 h
    rw [Argument.repeatsKey_variant_iff, and_iff_right rfl, Argument.repeatsKey_content_iff]
    exact repeatsKey_given distinct
  | wildcard =>
    intro value arg distinct h
    cases encodeAs_wildcard_iff.1 h
    exact repeatsKey_given distinct
  | dictionary key element ih => exact repeatsOnlyGathered_dictionary strict ih
  | array element other ih =>
    by_cases resolved : element = .wildcard
    · subst resolved
      exact repeatsOnlyGathered_wildcards
    · exact repeatsOnlyGathered_array other resolved ih
  | struct types ih => exact repeatsOnlyGathered_struct ih
  | entry key element =>
    intro value arg distinct h
    obtain ⟨rfl, -⟩ := encodeAs_entry_iff.1 h
    exact repeatsKey_given distinct

end Encoding

variable {config : CodecConfig}

/-- What is encoded under a type has distinct keys exactly if no entries with one key twice are
gathered. -/
theorem Encoding.encodeComplete_keysDistinct_iff (strict : config.duplicateKeys = .reject)
    {type : CompleteType} {value : Value} {arg : Argument} (distinct : value.KeysDistinct)
    (h : encodeComplete config type value = .ok arg) :
    arg.KeysDistinct ↔ ¬ GathersRepeats type value := by
  have encoded := (encodeComplete_iff.1 h).1
  have formed := encodeAs_wellFormed encoded distinct.wellFormed
  rw [Argument.KeysDistinct, and_iff_right formed,
    encodeAs_repeatsKey_iff strict type value arg distinct encoded]

/-- Keys that are distinct are no obstacle to reading an argument under its own signature. -/
theorem Argument.KeysDistinct.decodeSignature_ne {arg : Argument} (h : arg.KeysDistinct)
    (config : CodecConfig) (name : String) :
    decodeSignature config arg.signature arg ≠ .error (.duplicateKey name) := by
  obtain ⟨type, same, accepted, -⟩ := h.1.typed
  rw [same, decodeSignature_ofType accepted]
  by_cases entry : type.tag = .dictEntry
  · cases type <;> cases entry
    rw [Decoding.decodeAs]
    intro same
    cases same
  · have alone : Grammar.caller.Accepts type := accepted.narrow id entry
    rcases Decoding.decodeAs_cases config alone h.1 with ⟨-, failed⟩ | ⟨-, hinges⟩
    · rw [failed]
      intro same
      cases same
    · intro same
      rw [same] at hinges
      exact hinges.1 fun _ _ repeats => h.2 (repeatsKey_unwrapped_iff.1 repeats.mono)

theorem Argument.KeysDistinct.decode_ne {arg : Argument} (h : arg.KeysDistinct)
    (config : CodecConfig) (name : String) :
    decode config arg.signature.text arg ≠ .error (.duplicateKey name) := by
  rw [decode]
  cases parsed : Signature.parseSingle arg.signature.text with
  | error error =>
    intro same
    cases same
  | ok signature =>
    obtain ⟨-, -, rfl⟩ := Signature.parseSingle_iff.1 parsed
    exact h.decodeSignature_ne config name

/-- Where repeated keys are refused and no given argument has any, results have none under types
without wildcards. Under other types, they have some exactly if entries with one key twice are
gathered. An argument with distinct keys is never refused for its keys when it is decoded under its
own signature. -/
theorem encode_keysDistinct (strict : config.duplicateKeys = .reject) :
    (∀ text value arg, value.KeysDistinct → encode config text value = .ok arg →
      arg.KeysDistinct) ∧
    (∀ text values args, (∀ value ∈ values, value.KeysDistinct) →
      encodeAll config text values = .ok args → ∀ arg ∈ args, arg.KeysDistinct) ∧
    (∀ signature type value arg, signature.single = .ok type → value.KeysDistinct →
      encodeSignature config signature value = .ok arg →
      (arg.KeysDistinct ↔ ¬ Encoding.GathersRepeats type value)) ∧
    (∀ values arg, (∀ value ∈ values, value.KeysDistinct) →
      encodeInferred config values = .ok arg →
      (arg.KeysDistinct ↔ (values.filterMap Encoding.givenKey?).Nodup)) ∧
    ∀ arg, arg.KeysDistinct → ∀ name,
      decode config arg.signature.text arg ≠ .error (.duplicateKey name) ∧
      decodeSignature config arg.signature arg ≠ .error (.duplicateKey name) := by
  refine ⟨?_, ?_, ?_, ?_, ?_⟩
  · intro text value arg distinct h
    obtain ⟨type, single, encoded⟩ := encode_ok_iff.1 h
    obtain ⟨rfl, accepted⟩ := Grammar.read_single single
    rw [Encoding.encodeComplete_keysDistinct_iff strict distinct encoded]
    exact Encoding.not_gathersRepeats_of_resolved (accepted.1.hasWildcard_eq rfl) value
  · intro text values args distinct h
    obtain ⟨types, read, -, encoded⟩ := encodeAll_iff.1 h
    have admitted := (Grammar.read_iff.1 read).2.2
    refine forall_right encoded ?_
    intro slot member arg encoded
    obtain ⟨listed, present⟩ := List.of_mem_zip member
    rw [Encoding.encodeComplete_keysDistinct_iff strict (distinct slot.2 present) encoded]
    exact Encoding.not_gathersRepeats_of_resolved
      ((admitted slot.1 listed).hasWildcard_eq rfl) slot.2
  · intro signature type value arg single distinct h
    obtain ⟨type', single', encoded⟩ := encodeSignature_ok_iff.1 h
    cases single.symm.trans single'
    exact Encoding.encodeComplete_keysDistinct_iff strict distinct encoded
  · intro values arg distinct h
    rw [encodeInferred_eq] at h
    rw [Encoding.encodeComplete_keysDistinct_iff strict (Value.arguments_seq.2 distinct) h,
      Encoding.GathersRepeats, not_not]
  · intro arg distinct name
    exact ⟨distinct.decode_ne config name, distinct.decodeSignature_ne config name⟩

theorem Argument.byteEntry_keysDistinct (key : String) (byte : UInt8) :
    (byteEntry key byte).KeysDistinct := by
  refine ⟨byteEntry_wellFormed key byte, ?_⟩
  rw [byteEntry, repeatsKey_entry_iff]
  exact not_repeatsKey_scalar _

/-- Entries with different keys can be gathered. -/
theorem encode_keysDistinct_struct :
    let value : Value := .seq [.seq [.arg (.byteEntry "a" 1), .arg (.byteEntry "b" 2)]]
    value.KeysDistinct ∧ ∃ arg, encodeSignature .standard ⟨"(a*)"⟩ value = .ok arg ∧
      arg.KeysDistinct := by
  intro value
  have distinct : value.KeysDistinct := by
    have given : value.arguments = [.byteEntry "a" 1, .byteEntry "b" 2] := rfl
    rw [Value.KeysDistinct, given, List.forall_mem_cons, List.forall_mem_singleton]
    exact ⟨Argument.byteEntry_keysDistinct "a" 1, Argument.byteEntry_keysDistinct "b" 2⟩
  have apart : ¬ Encoding.GathersRepeats (.struct [.array .wildcard]) value := by
    have different : (Scalar.string "a").fingerprint ≠ (Scalar.string "b").fingerprint := by decide
    rw [Encoding.GathersRepeats, Encoding.membersGatherRepeats_iff]
    simp [Encoding.GathersRepeats, Encoding.givenKey?, Argument.keyName?, Argument.byteEntry,
      different]
  cases made : encodeSignature .standard ⟨"(a*)"⟩ value with
  | error error => cases made
  | ok arg =>
    exact ⟨distinct, arg, rfl,
      ((encode_keysDistinct rfl).2.2.1 ⟨"(a*)"⟩ _ value arg rfl distinct made).2 apart⟩

/-- Entries with one key twice make a dictionary that the same configuration refuses to read. -/
theorem encodeInferred_repeatsKey :
    let values : List Value := [.arg (.byteEntry "a" 1), .arg (.byteEntry "a" 2)]
    CodecConfig.standard.duplicateKeys = .reject ∧ (∀ value ∈ values, value.KeysDistinct) ∧
      encodeInferred .standard values = .ok .repeating ∧ Argument.repeating.RepeatsKey true ∧
      decode .standard Argument.repeating.signature.text .repeating =
        .error (.duplicateKey "s:a") := by
  intro values
  have distinct : ∀ value ∈ values, value.KeysDistinct := by
    rw [List.forall_mem_cons, List.forall_mem_singleton]
    exact ⟨Value.arguments_arg.2 (Argument.byteEntry_keysDistinct "a" 1),
      Value.arguments_arg.2 (Argument.byteEntry_keysDistinct "a" 2)⟩
  exact ⟨rfl, distinct, rfl, Argument.repeating_repeatsKey true, rfl⟩

end MessageArgs
