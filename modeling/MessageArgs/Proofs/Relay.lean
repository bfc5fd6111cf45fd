import MessageArgs.Proofs.Decoding.Outcome
import MessageArgs.Proofs.Encoding.Conforming

/-!
# Encoding undoes decoding

A received argument is relayed when it is decoded and the value is encoded again under the same
signature. The encoder asks more of a tree than the decoder does, and it changes variants around
variants and repeated keys. `AsEncoded` says this for one node, and `encode_decode_iff` proves that
relaying gives back the same tree exactly if it holds of all nodes outside the contents of variants
and the tree is not too deep.

`relays` is the induction over the type, and `relays_basic` to `relays_struct` are its cases.
-/

namespace MessageArgs

open Signature (ofType)

/-- A node as the encoder makes it, of which the decoder is less strict. -/
def Argument.AsEncoded (config : CodecConfig) : Argument → Prop
  | .scalar (.objectPath path) =>
    config.validateObjectPaths = true → ObjectPath.isValid path = true
  | .scalar (.signature payload) => ∃ parsed, Signature.parse payload.text = .ok parsed
  | .scalar _ => True
  | .array element signature items =>
    (element = .variant → Encoding.UniformContents items) ∧
      (Argument.array element signature items).keyNames.Nodup
  | .variant content => content.tag ≠ .variant
  | .struct _ _ => True
  | .dictEntry _ _ _ => True

namespace Relaying

open Argument (AsEncoded)
open Decoding (decodeAs decodeEntry)
open Encoding (Conforms ConformsKey AllConform Takes UniformValues keyScalar scalarOf tree treeAll)

variable {config : CodecConfig}

/-! ## Scalars -/

theorem scalarOf_toAtom (scalar : Scalar) : scalarOf scalar.type scalar.toAtom = scalar := by
  cases scalar <;> rfl

theorem takes_toAtom_iff {scalar : Scalar} :
    Takes config scalar.type scalar.toAtom ↔ (Argument.scalar scalar).AsEncoded config := by
  cases scalar with
  | signature payload =>
    show (∃ types, Grammar.caller.read payload.text = .ok types) ↔
      ∃ parsed, Grammar.caller.parse payload.text = .ok parsed
    simp only [Grammar.parse_iff, exists_eq_left]
  | _ => exact Iff.rfl

/-! ## Slots -/

/-- A tree whose nodes outside the contents of variants are as the encoder makes them. -/
def Kept (config : CodecConfig) (arg : Argument) : Prop :=
  ∀ node ∈ arg.nodes false, node.AsEncoded config

/-- What is read under a type is encoded as the same tree exactly if its nodes allow it. -/
def Relays (config : CodecConfig) (type : CompleteType) : Prop :=
  ∀ arg value, arg.WellFormed → arg.signature = ofType type →
    decodeAs config type arg = .ok value →
    (Conforms config type value ∧ tree type value = arg ↔ Kept config arg)

theorem relays_basic (type : BasicType) : Relays config (.basic type) := by
  intro arg value formed same decoded
  have tags := formed.tag_eq same
  cases arg <;> cases tags
  rename_i scalar
  obtain ⟨_, unwrapped, -, rfl⟩ := Decoding.decodeAs_basic_iff.1 decoded
  cases unwrapped
  show Takes config scalar.type scalar.toAtom ∧
    Argument.scalar (scalarOf scalar.type scalar.toAtom) = .scalar scalar ↔ _
  rw [scalarOf_toAtom, and_iff_left rfl, takes_toAtom_iff, Kept, Argument.nodes_scalar]

theorem relays_variant : Relays config .variant := by
  intro arg value formed same decoded
  obtain ⟨content, rfl, rfl⟩ := Decoding.decodeAs_variant_iff.1 decoded
  show True ∧ Argument.variant content.content = .variant content ↔ _
  rw [true_and, Argument.variant.injEq, Argument.content_eq_iff, Kept, Argument.nodes_variant]
  simp [AsEncoded]

/-- Lists that are relayed item by item. -/
theorem forall₂_relayed_iff {α β : Type} {R : α → β → Prop} {P : β → Prop} {Q : α → Prop}
    {f : β → α} {items : List α} {results : List β} (related : List.Forall₂ R items results)
    (each : ∀ item ∈ items, ∀ result, R item result → (P result ∧ f result = item ↔ Q item)) :
    (∀ result ∈ results, P result) ∧ results.map f = items ↔ ∀ item ∈ items, Q item := by
  induction related with
  | nil => simp
  | @cons item result items results first _ ih =>
    rw [List.forall_mem_cons] at each
    rw [List.forall_mem_cons, List.forall_mem_cons, List.map_cons, List.cons.injEq,
      ← each.1 result first, ← ih each.2]
    exact and_and_and_comm

theorem relays_array {element : CompleteType} (other : element.tag ≠ .dictEntry)
    (ih : Relays config element) : Relays config (.array element) := by
  intro arg value formed same decoded
  obtain ⟨items, rfl, inside⟩ := Decoding.eq_array_of_signature formed same
  obtain ⟨_, _, _, values, shape, -, read, rfl⟩ := (Decoding.decodeAs_array_iff other).1 decoded
  cases shape
  have each := forall₂_relayed_iff read fun item member value decoded =>
    ih item value (inside item member).1 (inside item member).2 decoded
  have noEntries : ∀ item ∈ items, item.tag ≠ .dictEntry := by
    intro item member
    rwa [← (inside item member).1.tag_eq (inside item member).2]
  rw [Encoding.conforms_seq_iff other, Encoding.tree_seq values other, Kept, Argument.nodes_array,
    AsEncoded, Argument.keyNames_of_tag_ne noEntries, and_iff_left List.nodup_nil]
  simp only [Argument.array.injEq, true_and]
  rw [and_right_comm, each, and_comm]
  refine and_congr_left fun kept => ?_
  obtain ⟨conform, rebuilt⟩ := each.2 kept
  constructor
  · intro uniform named
    have variant : element = .variant := Signature.ofType_inj named
    subst variant
    rw [← rebuilt]
    exact (Encoding.uniformContents_tree_iff conform).2 (uniform rfl)
  · intro uniform variant
    subst variant
    rw [← rebuilt] at uniform
    exact (Encoding.uniformContents_tree_iff conform).1 (uniform rfl)

/-- A key is relayed as it is, unless it is an object path or a signature that is refused. -/
theorem conformsKey_toAtom_iff {name : Scalar} :
    ConformsKey config name.type (.atom name.toAtom) ↔ (Argument.scalar name).AsEncoded config :=
  takes_toAtom_iff

theorem keyScalar_toAtom (name : Scalar) : keyScalar name.type (.atom name.toAtom) = name :=
  scalarOf_toAtom name

/-- The entry that a pair is encoded as. -/
def entryOf (key : BasicType) (element : CompleteType) (pair : Value × Value) : Argument :=
  .dictEntry (ofType (.entry key element)) (keyScalar key pair.1) (tree element pair.2)

theorem entry_relayed_iff {key : BasicType} {element : CompleteType} (ih : Relays config element)
    {item : Argument} {keyed : String × Value × Value} (formed : item.WellFormed)
    (same : item.signature = ofType (.entry key element))
    (decoded : decodeEntry config key element item = .ok keyed) :
    ((ConformsKey config key keyed.2.1 ∧ Conforms config element keyed.2.2) ∧
      entryOf key element keyed.2 = item) ↔ Kept config item := by
  obtain ⟨name, content, rfl, rfl, inside, typed⟩ := Decoding.eq_entry_of_signature formed same
  obtain ⟨_, _, _, shape, -, read, -, first⟩ := Decoding.decodeEntry_iff.1 decoded
  cases shape
  have below := ih content keyed.2.2 inside typed read
  rw [Kept, Argument.nodes_entry, entryOf, first, keyScalar_toAtom, conformsKey_toAtom_iff,
    Argument.dictEntry.injEq, ← Kept, ← below]
  simp only [AsEncoded, true_and]
  exact and_assoc

/-- The fingerprints of the keys that a value is encoded with are those that it was read with. -/
theorem fingerprint_of_decodeEntry {key : BasicType} {element : CompleteType} {item : Argument}
    {keyed : String × Value × Value} (decoded : decodeEntry config key element item = .ok keyed) :
    (keyScalar key keyed.2.1).fingerprint = keyed.1 := by
  obtain ⟨_, name, _, -, rfl, -, named, first⟩ := Decoding.decodeEntry_iff.1 decoded
  rw [first, keyScalar_toAtom, named]

theorem tree_map (key : BasicType) (element : CompleteType) (pairs : List (Value × Value)) :
    tree (.array (.entry key element)) (.map pairs) =
      .array (ofType (.entry key element)) (ofType (.array (.entry key element)))
        ((DuplicateKeys.collapse (pairs.map fun pair =>
          ((keyScalar key pair.1).fingerprint, entryOf key element pair))).map Prod.snd) :=
  rfl

/-- Of pairs with the same key one entry is made. -/
theorem keyNames_tree_nodup (key : BasicType) (element : CompleteType)
    (pairs : List (Value × Value)) :
    (tree (.array (.entry key element)) (.map pairs)).keyNames.Nodup := by
  rw [tree_map, Argument.keyNames, Argument.filterMap_keyName?]
  · exact DuplicateKeys.nodup_collapse _
  · intro entry kept
    obtain ⟨pair, -, rfl⟩ := List.mem_map.1 (DuplicateKeys.mem_of_mem_collapse kept)
    rfl

/-- Pairs that were read with distinct keys are encoded one by one. -/
theorem conforms_read_iff {key : BasicType} {element : CompleteType} {items : List Argument}
    {keyed : List (String × Value × Value)}
    (read : List.Forall₂ (fun item keyed => decodeEntry config key element item = .ok keyed) items
      keyed) (distinct : (keyed.map Prod.fst).Nodup) :
    Conforms config (.array (.entry key element)) (.map (keyed.map Prod.snd)) ↔
      ∀ entry ∈ keyed,
        ConformsKey config key entry.2.1 ∧ Conforms config element entry.2.2 := by
  have names : (keyed.map Prod.snd).map (fun pair => (keyScalar key pair.1).fingerprint) =
      keyed.map Prod.fst := by
    rw [List.map_map]
    exact List.map_congr_left (forall_right read fun _ _ _ => fingerprint_of_decodeEntry)
  rw [Conforms, names, and_iff_left fun _ => distinct, List.forall_mem_map]

theorem tree_read {key : BasicType} {element : CompleteType} {items : List Argument}
    {keyed : List (String × Value × Value)}
    (read : List.Forall₂ (fun item keyed => decodeEntry config key element item = .ok keyed) items
      keyed) (distinct : (keyed.map Prod.fst).Nodup) :
    tree (.array (.entry key element)) (.map (keyed.map Prod.snd)) =
      .array (ofType (.entry key element)) (ofType (.array (.entry key element)))
        (keyed.map fun entry => entryOf key element entry.2) := by
  have tagged : (keyed.map Prod.snd).map (fun pair => ((keyScalar key pair.1).fingerprint,
        entryOf key element pair)) =
      keyed.map fun entry => (entry.1, entryOf key element entry.2) := by
    rw [List.map_map]
    refine List.map_congr_left (forall_right read fun _ _ _ decoded => ?_)
    exact Prod.ext (fingerprint_of_decodeEntry decoded) rfl
  have names : (keyed.map fun entry => (entry.1, entryOf key element entry.2)).map Prod.fst =
      keyed.map Prod.fst := by
    rw [List.map_map]
    rfl
  rw [tree_map, tagged, DuplicateKeys.collapse_of_nodup (names ▸ distinct), List.map_map]
  rfl

theorem relays_dictionary {key : BasicType} {element : CompleteType}
    (ih : Relays config element) : Relays config (.array (.entry key element)) := by
  intro arg value formed same decoded
  obtain ⟨items, rfl, inside⟩ := Decoding.eq_array_of_signature formed same
  obtain ⟨_, _, keyed, shape, read, -, rfl⟩ := Decoding.decodeAs_dictionary_iff.1 decoded
  cases shape
  have own : (Argument.array (ofType (.entry key element)) (ofType (.array (.entry key element)))
      items).keyNames = keyed.map Prod.fst := (Decoding.names_of_decodeEntry read).symm
  rw [Kept, Argument.nodes_array, AsEncoded, own]
  by_cases distinct : (keyed.map Prod.fst).Nodup
  · have each := forall₂_relayed_iff read fun item member keyed decoded =>
      entry_relayed_iff ih (inside item member).1 (inside item member).2 decoded
    have noVariant : ofType (.entry key element) ≠ .variant := by
      rw [← Encoding.ofType_variant]
      exact fun named => nomatch Signature.ofType_inj named
    rw [DuplicateKeys.collapse_of_nodup distinct, conforms_read_iff read distinct,
      tree_read read distinct, and_iff_left distinct,
      and_iff_right (fun variant => absurd variant noVariant), Argument.array.injEq]
    simp only [true_and]
    exact each
  · refine iff_of_false (fun both => distinct ?_) fun kept => distinct kept.1.2
    rw [← own, ← both.2]
    exact keyNames_tree_nodup key element _

theorem members_relayed_iff {types : List CompleteType} {members : List Argument}
    {values : List Value} (ih : ∀ type ∈ types, Relays config type)
    (formed : ∀ member ∈ members, member.WellFormed)
    (typed : members.map Argument.signature = types.map ofType)
    (read : List.Forall₂ (fun slot value => decodeAs config slot.1 slot.2 = .ok value)
      (types.zip members) values) :
    AllConform config types values ∧ treeAll types values = members ↔
      ∀ member ∈ members, Kept config member := by
  induction types generalizing members values with
  | nil =>
    cases members with
    | nil =>
      cases read
      simp [AllConform, treeAll]
    | cons member members => cases typed
  | cons type types rest =>
    cases members with
    | nil => cases typed
    | cons member members =>
      rw [List.map_cons, List.map_cons, List.cons.injEq] at typed
      rw [List.forall_mem_cons] at ih formed
      cases read with
      | cons first others =>
        rw [List.forall_mem_cons, AllConform, treeAll, List.cons.injEq,
          ← ih.1 member _ formed.1 typed.1 first, ← rest ih.2 formed.2 typed.2 others]
        exact and_and_and_comm

theorem relays_struct {types : List CompleteType} (ih : ∀ type ∈ types, Relays config type) :
    Relays config (.struct types) := by
  intro arg value formed same decoded
  obtain ⟨members, rfl, typed, inside⟩ := Decoding.eq_struct_of_signature formed same
  obtain ⟨_, _, values, shape, -, -, read, rfl⟩ := Decoding.decodeAs_struct_iff.1 decoded
  cases shape
  show AllConform config types values ∧
    Argument.struct (ofType (.struct types)) (treeAll types values) = .struct _ members ↔ _
  rw [Kept, Argument.nodes_struct, Argument.struct.injEq]
  simp only [AsEncoded, true_and]
  exact members_relayed_iff ih inside typed read

/-- What is read under a type is encoded as the same tree exactly if its nodes allow it. -/
theorem relays {type : CompleteType} (accepted : Grammar.caller.Accepts type) :
    Relays config type := by
  induction accepted using Grammar.Accepts.slots with
  | basic type => exact relays_basic type
  | variant => exact relays_variant
  | dictionary key element accepted inside ih => exact relays_dictionary ih
  | array element accepted other inside ih => exact relays_array other ih
  | struct types accepted inside ih => exact relays_struct ih

end Relaying

/-- What reading an argument under a signature leaves of the variants around it: all, if it is read
as a variant, and else none. -/
def Argument.readAs (text : String) (arg : Argument) : Argument :=
  if text = "v" then arg else arg.unwrapped

/-- A received argument is relayed as it is, without the variants around it that reading takes off,
exactly if it is not too deep and, outside of what its variants hold, its object paths (where they
are checked) and payloads of type signature would be taken from a caller, arrays of variants hold
contents of one signature, no variant directly holds another one and no dictionary repeats a key. -/
theorem encode_decode_iff {config : CodecConfig} {text : String} {type : CompleteType}
    {arg : Argument} {value : Value} (single : Grammar.caller.read text = .ok [type])
    (formed : arg.WellFormed) (decoded : decode config text arg = .ok value) :
    encode config text value = .ok (arg.readAs text) ↔
      (∀ node ∈ (arg.readAs text).nodes false, node.AsEncoded config) ∧
        (arg.readAs text).depth ≤ config.maxDepth := by
  obtain ⟨rfl, accepted⟩ := Grammar.read_single single
  rw [encode_of_single single, Encoding.encodeComplete_iff, Encoding.encodeAs_iff accepted]
  rw [decode_of_single single] at decoded
  refine and_congr_left fun _ => ?_
  rw [eq_comm (a := arg.readAs type.text)]
  by_cases named : type = .variant
  · subst named
    obtain ⟨content, rfl, -⟩ := Decoding.decodeAs_variant_iff.1 decoded
    exact Relaying.relays accepted _ value formed rfl decoded
  · have inside : arg.readAs type.text = arg.unwrapped :=
      if_neg (mt Decoding.text_eq_variant_iff.1 named)
    rw [inside]
    have same : arg.unwrapped.signature = ofType type := by
      by_contra different
      rw [Decoding.decodeAs_mismatch accepted formed named different] at decoded
      cases decoded
    rw [Decoding.decodeAs_unwrapped named accepted.ne_wildcard] at decoded
    exact Relaying.relays accepted _ value (Decoding.unwrapped_wellFormed formed) same decoded

/-- Two variants of one type. -/
def Argument.twoBytes : List Argument :=
  [.variant (.scalar (.byte 1)), .variant (.scalar (.byte 2))]

/-- A path beside two variants of one type. -/
def Argument.pathAndBytes : Argument :=
  .struct ⟨"(oav)"⟩ [.scalar (.objectPath "/a"), .array ⟨"v"⟩ ⟨"av"⟩ Argument.twoBytes]

theorem encode_decode_iff_wrapped :
    ∃ value, decode .standard "(oav)" (.variant (.variant .pathAndBytes)) = .ok value ∧
      encode .standard "(oav)" value = .ok .pathAndBytes := by
  have single : Grammar.caller.read "(oav)" =
      .ok [.struct [.basic .objectPath, .array .variant]] := rfl
  have bytes : ∀ item ∈ Argument.twoBytes, item.WellFormed := by
    simp [Argument.twoBytes, Argument.wellFormed_variant_iff, Argument.wellFormed_scalar]
  have items : Argument.ofItems ⟨"v"⟩ Argument.twoBytes =
      .ok (.array ⟨"v"⟩ ⟨"av"⟩ Argument.twoBytes) := by rfl
  have array := Argument.ofItems_wellFormed items bytes
  have made : Argument.ofMembers [.scalar (.objectPath "/a"),
      .array ⟨"v"⟩ ⟨"av"⟩ Argument.twoBytes] = .ok .pathAndBytes := by rfl
  have members : Argument.pathAndBytes.WellFormed := by
    refine Argument.ofMembers_wellFormed made ?_
    rw [List.forall_mem_cons, List.forall_mem_singleton]
    exact ⟨Argument.wellFormed_scalar _, array⟩
  have formed : (Argument.variant (.variant .pathAndBytes)).WellFormed :=
    Argument.wellFormed_variant_iff.2 (Argument.wellFormed_variant_iff.2 members)
  refine ⟨_, rfl, (encode_decode_iff single formed rfl).2 ⟨?_, by decide⟩⟩
  have uniform : Encoding.UniformContents Argument.twoBytes :=
    ⟨.ofType (.basic .byte), by simp [Argument.twoBytes]; decide⟩
  have valid : ObjectPath.isValid "/a" = true := rfl
  have keyless : (Argument.array ⟨"v"⟩ ⟨"av"⟩ Argument.twoBytes).keyNames.Nodup := by decide
  show ∀ node ∈ Argument.pathAndBytes.nodes false, node.AsEncoded .standard
  rw [Argument.pathAndBytes, Argument.nodes_struct, List.forall_mem_cons,
    List.forall_mem_singleton, Argument.nodes_scalar, Argument.nodes_array]
  refine ⟨trivial, fun _ => valid, ⟨fun _ => uniform, keyless⟩, ?_⟩
  simp [Argument.twoBytes, Argument.nodes_variant, Argument.AsEncoded, Argument.tag]

end MessageArgs
