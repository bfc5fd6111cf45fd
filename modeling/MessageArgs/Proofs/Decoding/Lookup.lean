import Mathlib.Data.List.Find
import MessageArgs.Proofs.Decoding.Outcome
import MessageArgs.Proofs.Fingerprint
import MessageArgs.Proofs.Signature.Accessors

/-!
# Looking up keys

A key of a dictionary can be looked up in the dictionary, or in the map that the dictionary is
decoded to. The first way goes through the entries from the last one back and compares scalars; the
second one decodes all entries, keeps the last one under each fingerprint and goes through the pairs
that remain, comparing values. Apart from doubles all these comparisons are equality of keys
(`Scalar.same_iff`, `Scalar.same_toAtom_iff`, `Scalar.fingerprint_inj`). So both ways come to the
last entry that has the key: the first one directly (`lastEntry?_rel`), the second one by
`DuplicateKeys.find?_collapse`.
-/

namespace MessageArgs

/-! ## Keys -/

namespace Scalar

variable {a b : Scalar}

theorem same_iff (plain : b.type ≠ .double) : a.same b = true ↔ a = b := by
  cases b with
  | double => exact absurd rfl plain
  | _ => cases a <;> simp [same]

/-- Native values of one type are equal if the scalars are. -/
theorem same_toAtom_iff (typed : a.type = b.type) (plain : b.type ≠ .double) :
    (Value.atom a.toAtom).same (.atom b.toAtom) = true ↔ a = b := by
  cases a <;> cases b <;> cases typed
  case double.double => exact absurd rfl plain
  case signature.signature a b =>
    obtain ⟨a⟩ := a
    obtain ⟨b⟩ := b
    simp [Value.same, Atom.same, toAtom]
  all_goals simp [Value.same, Atom.same, toAtom]

/-- A value that stands for a scalar is its native value, or a single that stands for a double. -/
theorem ofValue_ok {type : BasicType} {value : Value} {scalar : Scalar}
    (h : ofValue type value = .ok scalar) :
    scalar.type = type ∧ (type ≠ .double → value = .atom scalar.toAtom) := by
  cases value with
  | atom atom =>
    rw [ofValue] at h
    cases type with
    | signature =>
      cases atom with
      | string s =>
        obtain ⟨parsed, accepted, rfl⟩ := map_ok_iff.1 h
        obtain ⟨rfl, -⟩ := Grammar.parse_iff.1 (mapError_ok_iff.1 accepted)
        exact ⟨rfl, fun _ => rfl⟩
      | _ => cases h
    | double =>
      cases atom <;> cases h <;> exact ⟨rfl, fun plain => absurd rfl plain⟩
    | _ =>
      cases atom <;> cases h
      exact ⟨rfl, fun _ => rfl⟩
  | _ => cases h

end Scalar

namespace Decoding

open DuplicateKeys (collapse find?_collapse)

variable {config : CodecConfig} {key : BasicType} {element : CompleteType} {name : Scalar}
  {items : List Argument} {keyed : List (String × Value × Value)}

/-! ## In the dictionary -/

/-- Going through the entries from the last one back finds what goes into the last pair with the
fingerprint. -/
theorem lastEntry?_rel (typed : name.type = key) (plain : key ≠ .double)
    (decoded : List.Forall₂ (fun item keyed => decodeEntry config key element item = .ok keyed)
      items keyed) :
    Option.Rel (fun content kept => decodeAs config element content = .ok kept.2.2)
      ( lastEntry? name items) (keyed.reverse.find? fun kept => kept.1 = name.fingerprint) := by
  unfold lastEntry?
  have backwards := List.rel_reverse decoded
  generalize items.reverse = items', keyed.reverse = keyed' at backwards ⊢
  induction backwards with
  | nil => exact .none
  | @cons item kept items keyed first _ ih =>
    obtain ⟨signature, other, content, rfl, typed', read, named, -⟩ := decodeEntry_iff.1 first
    rw [List.findSome?_cons, List.find?_cons]
    by_cases same : name = other
    · subst same
      have found : name.same name = true := (Scalar.same_iff (typed ▸ plain)).2 rfl
      rw [named]
      simp only [found, if_true, decide_true]
      exact .some read
    · have missed : other.same name = false :=
        Bool.eq_false_iff.2 (mt (Scalar.same_iff (typed ▸ plain)).1 (Ne.symm same))
      have unnamed : kept.1 ≠ name.fingerprint := by
        rw [named]
        exact fun equal => same (Scalar.fingerprint_inj.1 equal).symm
      simp only [missed, Bool.false_eq_true, if_false, decide_eq_false unnamed]
      exact ih

/-- Looking up in a dictionary, once signatures and the key are read. The signature asked for is
that of an entry and that of the elements, so neither check refuses it. -/
theorem dictLookup_eq {dict : Argument} {signature : Signature} {x : Value}
    (accepted : Grammar.stored.Accepts (.entry key element))
    (shape : dict.unwrapped = .array (.ofType (.entry key element)) signature items)
    (keyRead : Scalar.ofValue key x = .ok name) :
    dictLookup config dict (CompleteType.entry key element).text x =
      match lastEntry? name items with
      | some content => decodeAs config element content
      | none => .error (.elementNotFound name.fingerprint) := by
  have entries : (Signature.ofType (.entry key element)).firstTag? = some .dictEntry :=
    Signature.firstTag?_ofType _
  have read := Grammar.read_text_iff.2 ⟨rfl, accepted⟩
  simp only [dictLookup, read, shape]
  refine (if_neg (not_not.2 entries)).trans ((if_neg (not_not.2 rfl)).trans ?_)
  rw [keyRead]
  rfl

/-- A lookup reads the entry, finds the dictionary and reads the key, and decodes the last entry
that has it. -/
theorem dictLookup_iff {dict : Argument} {text : String} {x value : Value} :
    dictLookup config dict text x = .ok value ↔
      ∃ key element signature items name content,
        Grammar.stored.read text = .ok [.entry key element] ∧
        dict.unwrapped = .array (.ofType (.entry key element)) signature items ∧
        Scalar.ofValue key x = .ok name ∧ lastEntry? name items = some content ∧
        decodeAs config element content = .ok value := by
  constructor
  · intro h
    obtain ⟨types, read, h⟩ := bind_ok_iff.1 h
    rw [mapError_ok_iff] at read
    split at h
    · rename_i key element
      obtain ⟨rfl, accepted⟩ := Grammar.read_single read
      split at h
      · rename_i found signature items shape
        split at h
        · cases h
        · split at h
          · cases h
          · rename_i same
            rw [not_not] at same
            have typed : found = .ofType (.entry key element) := Signature.eq_iff.2 same
            subst typed
            obtain ⟨name, keyRead, h⟩ := bind_ok_iff.1 h
            split at h
            · rename_i content last
              exact ⟨key, element, signature, items, name, content, read, shape, keyRead, last, h⟩
            · cases h
      · cases h
    · cases h
  · intro h
    obtain ⟨key, element, signature, items, name, content, read, shape, keyRead, last, decoded⟩ := h
    obtain ⟨rfl, accepted⟩ := Grammar.read_single read
    rw [dictLookup_eq accepted shape keyRead, last]
    exact decoded

theorem lastEntry?_of_last {before after : List Argument} {signature : Signature}
    {content : Argument} (plain : name.type ≠ .double)
    (last : ∀ signature content, Argument.dictEntry signature name content ∉ after) :
    lastEntry? name (before ++ .dictEntry signature name content :: after) = some content := by
  have found : name.same name = true := (Scalar.same_iff plain).2 rfl
  unfold lastEntry?
  rw [List.reverse_append, List.reverse_cons, List.append_assoc,
    List.findSome?_append, List.findSome?_eq_none_iff.2, Option.none_or, List.singleton_append,
    List.findSome?_cons]
  · simp only [found, if_true]
  · intro item member
    rw [List.mem_reverse] at member
    cases item with
    | dictEntry signature other content =>
      refine if_neg fun same => ?_
      rw [Scalar.same_iff plain] at same
      exact last signature content (same ▸ member)
    | _ => rfl

/-! ## In the map -/

/-- Looking up a key in the map finds the last pair with its fingerprint. The map compares values,
which for the keys of its pairs is to compare fingerprints. -/
theorem get?_collapse (typed : name.type = key) (plain : key ≠ .double)
    (decoded : List.Forall₂ (fun item keyed => decodeEntry config key element item = .ok keyed)
      items keyed) :
    Value.get? (.atom name.toAtom) (.map ((collapse keyed).map Prod.snd)) =
      (keyed.reverse.find? fun kept => kept.1 = name.fingerprint).map (·.2.2) := by
  have keys : ∀ kept ∈ keyed, (kept.2.1.same (.atom name.toAtom) = true ↔
      kept.1 = name.fingerprint) := by
    refine forall_right decoded fun item _ kept first => ?_
    obtain ⟨-, other, -, -, typed', -, named, native⟩ := decodeEntry_iff.1 first
    rw [native, named, Scalar.fingerprint_inj]
    exact Scalar.same_toAtom_iff (typed'.trans typed.symm) (typed ▸ plain)
  have searches : (collapse keyed).find? (fun kept => kept.2.1.same (.atom name.toAtom)) =
      (collapse keyed).find? fun kept => kept.1 = name.fingerprint := by
    refine List.find?_congr fun kept member => ?_
    rw [Bool.eq_iff_iff, decide_eq_true_eq]
    exact keys kept (DuplicateKeys.mem_of_mem_collapse member)
  rw [← find?_collapse, ← searches, Value.get?, Value.asMap?, Option.bind_some, List.find?_map,
    Option.map_map]
  rfl

end Decoding

/-! ## Main result -/

open Decoding (decodeAs) in
/-- Looking up a key in a dictionary and in the map that the dictionary is decoded to comes to the
same, and a key that is in none of the entries is not found. If a key comes several times, its last
entry counts in both ways, wherever the others stand. Keys that are doubles are left out: they are
compared as numbers, and fingerprints tell them apart by their bits. Nothing else is asked of the
dictionary but that it is decoded, under whatever policy for repeated keys. -/
theorem dictLookup_of_decoded {config : CodecConfig} {dict : Argument} {key : BasicType}
    {element : CompleteType} {name : Scalar} {x map : Value} (plain : key ≠ .double)
    (decoded : decode config (CompleteType.array (.entry key element)).text dict = .ok map)
    (keyRead : Argument.ofScalar (.basic key) x = .ok (.scalar name)) :
    (∀ w, Value.get? x map = some w →
      dictLookup config dict (CompleteType.entry key element).text x = .ok w) ∧
    (Value.get? x map = none →
      dictLookup config dict (CompleteType.entry key element).text x =
        .error (.elementNotFound name.fingerprint)) ∧
    ∀ whole before signature content after,
      dict.unwrapped = .array (.ofType (.entry key element)) whole
        (before ++ .dictEntry signature name content :: after) →
      (∀ signature content, .dictEntry signature name content ∉ after) →
      ∃ w, decodeAs config element content = .ok w ∧ Value.get? x map = some w := by
  obtain ⟨name, keyRead, ⟨⟩⟩ := map_ok_iff.1 keyRead
  obtain ⟨typed, native⟩ := Scalar.ofValue_ok keyRead
  cases native plain
  obtain ⟨accepted, decoded⟩ := decode_text_iff.1 decoded
  obtain ⟨whole, items, keyed, shape, pairs, -, rfl⟩ := Decoding.decodeAs_dictionary_iff.1 decoded
  have search := Decoding.lastEntry?_rel typed plain pairs
  rw [Decoding.get?_collapse typed plain pairs, Decoding.dictLookup_eq accepted.entry shape keyRead]
  have last : ∀ {whole' before signature content after},
      dict.unwrapped = .array (.ofType (.entry key element)) whole'
        (before ++ .dictEntry signature name content :: after) →
      (∀ signature content, .dictEntry signature name content ∉ after) →
      Decoding.lastEntry? name items = some content := by
    intro whole' before signature content after same missing
    rw [shape] at same
    cases same
    exact Decoding.lastEntry?_of_last (typed ▸ plain) missing
  generalize Decoding.lastEntry? name items = first, keyed.reverse.find? _ = second
    at search last ⊢
  cases search with
  | none =>
    refine ⟨nofun, fun _ => rfl, fun whole before signature content after same missing => ?_⟩
    cases last same missing
  | @some content kept read =>
    refine ⟨?_, nofun, fun whole before signature content' after same missing => ?_⟩
    · intro w given
      cases given
      exact read
    · cases last same missing
      exact ⟨kept.2.2, read, rfl⟩

/-- The second entry for a key counts, under variants too, and another key is not found. -/
theorem dictLookup_of_decoded_repeatedKey :
    let config : CodecConfig := { duplicateKeys := .lastWriteWins }
    decode config "a\x7bsy\x7d" (.variant .repeating) =
        .ok (.map [(.atom (.string "a"), .atom (.byte 2))]) ∧
      dictLookup config (.variant .repeating) "\x7bsy\x7d" (.atom (.string "a")) =
        .ok (.atom (.byte 2)) ∧
      dictLookup config (.variant .repeating) "\x7bsy\x7d" (.atom (.string "b")) =
        .error (.elementNotFound "s:b") := by
  intro config
  have decoded : decode config (CompleteType.array (.entry .string (.basic .byte))).text
      (.variant .repeating) = .ok (.map [(.atom (.string "a"), .atom (.byte 2))]) := rfl
  obtain ⟨found, -, -⟩ :=
    dictLookup_of_decoded (x := .atom (.string "a")) (by decide) decoded rfl
  obtain ⟨-, missing, -⟩ :=
    dictLookup_of_decoded (x := .atom (.string "b")) (by decide) decoded rfl
  exact ⟨rfl, found _ rfl, missing rfl⟩

end MessageArgs
