import Mathlib.Data.List.Nodup
import Mathlib.Data.List.Perm.Subperm
import MessageArgs.Proofs.Decoding.Lookup
import MessageArgs.Proofs.Encoding.DepthLimit
import MessageArgs.Proofs.Relay

/-!
# Repeated keys and equal keys

Repeated keys are detected by their fingerprints, while keys are looked up by their equality. A
fingerprint holds the bits of a double and equality compares numbers, so there are two kinds of keys
on which they disagree (`fingerprint_same_iff`): the two zeros are equal and have different
fingerprints, and a NaN has one fingerprint and is not equal to itself.

For a dictionary this says how the detection of repeated keys goes with the absence of equal keys
(`Unequal`). The detection by bits is the same for the policies themselves (`apply_eq_iff`), for
encoding a map (`encode_refuses_iff`) and for decoding a dictionary (`decode_refuses_iff`), and
`DetectedByBits` says what it misses and what it finds too much.
-/

namespace MessageArgs

/-! ## Two keys -/

namespace Number.Double

/-- A zero is a number. -/
theorem isNaN_of_isZero {x : Double} (zero : x.isZero = true) : x.isNaN = false := by
  rw [isZero, decide_eq_true_eq] at zero
  rw [isNaN, zero]
  rfl

/-- Equal numbers have the same bits or are the two zeros. -/
theorem same_iff {x y : Double} :
    x.same y = true ↔ x = y ∧ x.isNaN = false ∨ x.isZero = true ∧ y.isZero = true ∧ x ≠ y := by
  by_cases equal : x = y
  · subst equal
    simp [same]
  · have numbers : x.isZero = true → y.isZero = true → x.isNaN = false ∧ y.isNaN = false :=
      fun first second => ⟨isNaN_of_isZero first, isNaN_of_isZero second⟩
    simp only [same, equal, decide_false, Bool.false_or, Bool.and_eq_true, Bool.not_eq_true',
      false_and, false_or, ne_eq, not_false_eq_true, and_true]
    constructor
    · exact And.right
    · intro zeros
      exact ⟨numbers zeros.1 zeros.2, zeros⟩

end Number.Double

namespace Scalar

variable {a b : Scalar}

/-- A double that is not a number. -/
def isNaN : Scalar → Bool
  | double x => x.isNaN
  | _ => false

/-- The zeros of both signs, in either order. -/
def oppositeZeros : Scalar → Scalar → Bool
  | double x, double y => x.isZero && y.isZero && x ≠ y
  | _, _ => false

theorem oppositeZeros_self (a : Scalar) : a.oppositeZeros a = false := by
  cases a <;> simp [oppositeZeros]

/-- Equal keys are one key that is no NaN, or the two zeros. -/
theorem same_eq_true_iff :
    a.same b = true ↔ a = b ∧ a.isNaN = false ∨ a.oppositeZeros b = true := by
  by_cases plain : b.type = .double
  · cases b <;> cases plain
    cases a with
    | double x => simp [same, Number.Double.same_iff, isNaN, oppositeZeros, and_assoc]
    | _ => simp [same, oppositeZeros]
  · rw [same_iff plain]
    cases b with
    | double y => exact absurd rfl plain
    | _ => cases a <;> simp [isNaN, oppositeZeros]

/-- Fingerprints and equality agree, apart from a NaN and itself and from the two zeros. -/
theorem fingerprint_same_iff : (a.fingerprint = b.fingerprint ↔ a.same b = true) ↔
    ¬ (a = b ∧ a.isNaN = true) ∧ a.oppositeZeros b = false := by
  rw [fingerprint_inj, same_eq_true_iff]
  by_cases equal : a = b
  · subst equal
    simp [oppositeZeros_self]
  · simp [equal]

theorem fingerprint_injective : Function.Injective fingerprint :=
  fun _ _ => fingerprint_inj.1

end Scalar

theorem Argument.same_scalar (a b : Scalar) : (scalar a).same (.scalar b) = a.same b := by
  rw [same]

/-! ## The keys of a dictionary -/

/-- No two of some keys are equal. -/
def Unequal (names : List Scalar) : Prop :=
  names.Pairwise fun a b => a.same b = false

theorem unequal_iff {names : List Scalar} :
    Unequal names ↔ names.Pairwise (fun a b => a = b → a.isNaN = true) ∧
      names.Pairwise fun a b => a.oppositeZeros b = false := by
  have apart : ∀ a b : Scalar, a.same b = false ↔
      (a = b → a.isNaN = true) ∧ a.oppositeZeros b = false := by
    intro a b
    rw [Bool.eq_false_iff, ne_eq, Scalar.same_eq_true_iff, not_or, not_and, Bool.not_eq_false,
      Bool.not_eq_true]
  rw [← List.pairwise_and_iff, Unequal]
  simp only [apart]

/-- Repeated keys are detected bit by bit, which is compared with equality. -/
structure DetectedByBits (names : List Scalar) (detected : Prop) : Prop where
  /-- Some keys pass exactly if no key comes twice. -/
  bits : detected ↔ ¬ names.Nodup
  /-- Keys that pass are equal only if both zeros are among them. -/
  passing : ¬ detected →
    (Unequal names ↔ names.Pairwise fun a b => a.oppositeZeros b = false)
  /-- Keys of which no two are equal pass, unless one NaN comes twice. -/
  unequal : Unequal names →
    (¬ detected ↔ names.Pairwise fun a b => ¬ (a = b ∧ a.isNaN = true))

/-- The bits account for the rest. -/
theorem DetectedByBits.of_nodup {names : List Scalar} {detected : Prop}
    (bits : detected ↔ ¬ names.Nodup) : DetectedByBits names detected where
  bits := bits
  passing passed := by
    rw [bits, not_not] at passed
    rw [unequal_iff, and_iff_right]
    exact passed.imp fun different equal => absurd equal different
  unequal apart := by
    rw [bits, not_not]
    constructor
    · intro distinct
      exact distinct.imp fun different both => different both.1
    · intro once
      refine (once.and (unequal_iff.1 apart).1).imp ?_
      intro a b both equal
      exact both.1 ⟨equal, both.2 equal⟩

/-! ## The policies -/

namespace DuplicateKeys

variable {α : Type}

/-- A policy leaves items as they are exactly if no fingerprint comes twice. The fingerprints that
remain are distinct and among the given ones, so if they are as many they are all of them. -/
theorem apply_eq_iff {policy : DuplicateKeys} {keyed : List (String × α)} :
    policy.apply keyed = .ok (keyed.map Prod.snd) ↔ (keyed.map Prod.fst).Nodup := by
  refine ⟨fun kept => ?_, apply_of_nodup⟩
  have lengths := congrArg List.length (apply_iff.1 kept).2
  have among : ((collapse keyed).map Prod.fst).Subperm (keyed.map Prod.fst) :=
    (nodup_collapse keyed).subperm (List.map_subset _ fun _ => mem_of_mem_collapse)
  have all : ((collapse keyed).map Prod.fst).Perm (keyed.map Prod.fst) := by
    refine among.perm_of_length_le ?_
    simpa using Nat.le_of_eq lengths
  exact all.nodup (nodup_collapse keyed)

end DuplicateKeys

/-- An outcome that hinges on a condition is the refusal of a key exactly if that fails. -/
theorem Decoding.HingesOn.refuses_iff {α : Type} {P : Prop} {step : Except CodecError α}
    (h : HingesOn P step) : (∃ name, step = .error (.duplicateKey name)) ↔ ¬ P := by
  cases step with
  | ok value =>
    have holds : P := h
    simp [holds]
  | error error =>
    obtain ⟨refused, name, rfl⟩ := h
    simp [refused]

/-- Items that are tagged with the fingerprints of some keys. -/
def Tagged {α : Type} (names : List Scalar) (keyed : List (String × α)) : Prop :=
  keyed.map Prod.fst = names.map Scalar.fingerprint

namespace Tagged

variable {α : Type} {names : List Scalar} {keyed : List (String × α)}

theorem of_forall₂
    (each : List.Forall₂ (fun name item => item.1 = name.fingerprint) names keyed) :
    Tagged names keyed := by
  induction each with
  | nil => rfl
  | cons same _ ih => exact congrArg₂ List.cons same ih

theorem nodup_iff (tagged : Tagged names keyed) :
    (keyed.map Prod.fst).Nodup ↔ names.Nodup := by
  rw [tagged, List.nodup_map_iff Scalar.fingerprint_injective]

/-- The strict policy refuses the items exactly if two of the keys are the same. -/
theorem hingesOn_reject (tagged : Tagged names keyed) :
    Decoding.HingesOn names.Nodup (DuplicateKeys.reject.apply keyed) := by
  refine (Decoding.hingesOn_apply .reject keyed).congr ?_
  rw [imp_iff_right rfl, tagged.nodup_iff]

end Tagged

/-! ## Encoding and decoding -/

section

variable {config : CodecConfig} {text : String} {key : BasicType} {element : CompleteType}
  {names : List Scalar}

namespace Encoding

/-- The keys of some pairs, whose values can all be encoded. -/
def ReadsKeys (config : CodecConfig) (key : BasicType) (element : CompleteType)
    (pairs : List (Value × Value)) (names : List Scalar) : Prop :=
  List.Forall₂
    (fun pair name => encodeKey config key pair.1 = .ok name ∧
      ∃ content, encodeAs config element pair.2 = .ok content) pairs names

theorem buildDictionary_duplicateKey_iff {entry : CompleteType} {keyed : List (String × Argument)}
    {name : String} : buildDictionary config entry keyed = .error (.duplicateKey name) ↔
      config.duplicateKeys.apply keyed = .error (.duplicateKey name) := by
  simp only [buildDictionary, bind_error_iff, mapError_error_iff]
  constructor
  · rintro (refused | ⟨_, _, ⟨_, _, impossible⟩ | ⟨_, _, cause, _, impossible⟩⟩)
    · exact refused
    · cases impossible
    · cases cause <;> cases impossible
  · exact Or.inl

theorem encodeComplete_duplicateKey_iff {type : CompleteType} {value : Value} {name : String} :
    encodeComplete config type value = .error (.duplicateKey name) ↔
      encodeAs config type value = .error (.duplicateKey name) := by
  rw [encodeComplete, bind_error_iff]
  simp [checkDepth_error_iff]

end Encoding

/-- A map is refused for its keys exactly if two of them are the same. All its entries are made, so
that the outcome is that of the policy but for the depth. -/
theorem encode_refuses_iff {pairs : List (Value × Value)}
    (single : Grammar.caller.read text = .ok [.array (.entry key element)])
    (strict : config.duplicateKeys = .reject)
    (given : Encoding.ReadsKeys config key element pairs names) :
    (∃ name, encode config text (.map pairs) = .error (.duplicateKey name)) ↔ ¬ names.Nodup := by
  obtain ⟨rfl, accepted⟩ := Grammar.read_single single
  obtain ⟨keyed, each, made⟩ : ∃ keyed : List (String × Argument),
      List.Forall₂ (fun name item => item.1 = name.fingerprint) names keyed ∧
        List.Forall₂ (fun pair item => Encoding.encodeEntry config key element pair = .ok item)
          pairs keyed := by
    refine exists_forall₂ given ?_
    rintro pair _ name _ ⟨keyRead, content, encoded⟩
    obtain ⟨goodKey, rfl⟩ := Encoding.encodeKey_iff.1 keyRead
    obtain ⟨good, -⟩ := (Encoding.encodeAs_iff accepted.content).1 encoded
    have values : Encoding.Exact config element := Encoding.exact_of_accepts accepted.content
    have made := (Encoding.encodeEntry_conforming_iff accepted.entry values).2
      ⟨⟨goodKey, good⟩, rfl⟩
    exact ⟨_, rfl, made⟩
  rw [← (Tagged.of_forall₂ each).hingesOn_reject.refuses_iff, ← strict]
  refine exists_congr fun _ => ?_
  rw [encode_of_single single, Encoding.encodeComplete_duplicateKey_iff,
    Encoding.encodeAs_dictionary_map, mapM_ok_iff.2 made]
  exact Encoding.buildDictionary_duplicateKey_iff

/-- The keys of some entries, whose values can all be decoded. -/
def Decoding.ReadsKeys (config : CodecConfig) (key : BasicType) (element : CompleteType)
    (items : List Argument) (names : List Scalar) : Prop :=
  List.Forall₂
    (fun item name => ∃ signature content value, item = .dictEntry signature name content ∧
      name.type = key ∧ decodeAs config element content = .ok value) items names

/-- A dictionary is refused for its keys exactly if two of them are the same. -/
theorem decode_refuses_iff {dict : Argument} {signature : Signature} {items : List Argument}
    (single : Grammar.caller.read text = .ok [.array (.entry key element)])
    (strict : config.duplicateKeys = .reject)
    (shape : dict.unwrapped = .array (.ofType (.entry key element)) signature items)
    (given : Decoding.ReadsKeys config key element items names) :
    (∃ name, decode config text dict = .error (.duplicateKey name)) ↔ ¬ names.Nodup := by
  obtain ⟨keyed, each, made⟩ : ∃ keyed : List (String × Value × Value),
      List.Forall₂ (fun name item => item.1 = name.fingerprint) names keyed ∧
        List.Forall₂ (fun item keyed => Decoding.decodeEntry config key element item = .ok keyed)
          items keyed := by
    refine exists_forall₂ given ?_
    rintro _ _ name _ ⟨signature, content, value, rfl, typed, decoded⟩
    exact ⟨(name.fingerprint, .atom name.toAtom, value), rfl,
      Decoding.decodeEntry_iff.2 ⟨signature, name, content, rfl, typed, decoded, rfl, rfl⟩⟩
  have bare : Decoding.decodeAs config (.array (.entry key element)) dict =
      Decoding.decodeAs config (.array (.entry key element)) dict.unwrapped :=
    Decoding.decodeAs_unwrapped nofun nofun
  rw [decode_of_single single, bare, shape, Decoding.decodeAs_dictionary_eq, mapM_ok_iff.2 made,
    strict]
  exact (Tagged.of_forall₂ each).hingesOn_reject.pure.refuses_iff

end

/-! ## Main result -/

/-- Keys are told apart by their bits. Two fingerprints are equal exactly if the keys are the same,
and this is equality of keys apart from a NaN and itself and from the two zeros. A policy changes or
refuses keys that come twice bit by bit and no others, and for these keys a map is not encoded and a
dictionary is not decoded whose entries are accepted one by one. So dictionaries without equal keys
are those that pass, but for the ones that hold both zeros or one NaN twice. -/
theorem fingerprints_compare_bits (config : CodecConfig) :
    (∀ a b : Scalar, (a.fingerprint = b.fingerprint ↔ a = b) ∧
      ((a.fingerprint = b.fingerprint ↔ (Argument.scalar a).same (.scalar b) = true) ↔
        ¬ (a = b ∧ a.isNaN = true) ∧ a.oppositeZeros b = false)) ∧
    (∀ (policy : DuplicateKeys) (α : Type) (names : List Scalar) (keyed : List (String × α)),
      Tagged names keyed → DetectedByBits names (policy.apply keyed ≠ .ok (keyed.map Prod.snd))) ∧
    ∀ text key element, config.duplicateKeys = .reject →
      Grammar.caller.read text = .ok [.array (.entry key element)] →
      (∀ pairs names, Encoding.ReadsKeys config key element pairs names →
        DetectedByBits names
          (∃ name, encode config text (.map pairs) = .error (.duplicateKey name))) ∧
      ∀ dict signature items names,
        dict.unwrapped = .array (.ofType (.entry key element)) signature items →
        Decoding.ReadsKeys config key element items names →
        DetectedByBits names (∃ name, decode config text dict = .error (.duplicateKey name)) := by
  refine ⟨fun a b => ⟨Scalar.fingerprint_inj, ?_⟩, ?_, ?_⟩
  · rw [Argument.same_scalar]
    exact Scalar.fingerprint_same_iff
  · intro policy α names keyed tagged
    refine .of_nodup ?_
    rw [ne_eq, DuplicateKeys.apply_eq_iff, tagged.nodup_iff]
  · intro text key element strict single
    constructor
    · intro pairs names given
      exact .of_nodup (encode_refuses_iff single strict given)
    · intro dict signature items names shape given
      exact .of_nodup (decode_refuses_iff single strict shape given)

/-- A NaN is refused beside itself both ways, though it is not equal to itself. -/
theorem fingerprints_compare_bits_nan :
    let nan : Scalar := .double ⟨0x7ff8000000000000⟩
    let pairs : List (Value × Value) :=
      [(.atom nan.toAtom, .atom (.byte 1)), (.atom nan.toAtom, .atom (.byte 2))]
    let items : List Argument :=
      [.dictEntry ⟨"\x7bdy\x7d"⟩ nan (.scalar (.byte 1)),
        .dictEntry ⟨"\x7bdy\x7d"⟩ nan (.scalar (.byte 2))]
    let dict : Argument := .variant (.array ⟨"\x7bdy\x7d"⟩ ⟨"a\x7bdy\x7d"⟩ items)
    Unequal [nan, nan] ∧
      Encoding.ReadsKeys .standard .double (.basic .byte) pairs [nan, nan] ∧
      Decoding.ReadsKeys .standard .double (.basic .byte) items [nan, nan] ∧
      (∃ name, encode .standard "a\x7bdy\x7d" (.map pairs) = .error (.duplicateKey name)) ∧
      ∃ name, decode .standard "a\x7bdy\x7d" dict = .error (.duplicateKey name) := by
  intro nan pairs items dict
  have strict : CodecConfig.standard.duplicateKeys = .reject := rfl
  have single : Grammar.caller.read "a\x7bdy\x7d" =
      .ok [.array (.entry .double (.basic .byte))] := rfl
  have unequal : Unequal [nan, nan] := by
    rw [Unequal, List.pairwise_pair]
    rfl
  have given : Encoding.ReadsKeys .standard .double (.basic .byte) pairs [nan, nan] :=
    .cons ⟨rfl, _, rfl⟩ (.cons ⟨rfl, _, rfl⟩ .nil)
  have held : Decoding.ReadsKeys .standard .double (.basic .byte) items [nan, nan] :=
    .cons ⟨_, _, _, rfl, rfl, rfl⟩ (.cons ⟨_, _, _, rfl, rfl, rfl⟩ .nil)
  have twice : ¬ [nan, nan].Nodup := by simp
  obtain ⟨-, -, maps⟩ := fingerprints_compare_bits .standard
  obtain ⟨encoding, decoding⟩ := maps _ _ _ strict single
  exact ⟨unequal, given, held, (encoding pairs _ given).bits.2 twice,
    (decoding dict _ items _ rfl held).bits.2 twice⟩

/-- The two zeros are equal keys, and of two entries with these keys none is refused or overwritten,
so the first one is out of reach of lookups. A NaN is refused beside itself, though it is not equal
to itself. -/
theorem zeros_pass_as_two_keys :
    let zero : Scalar := .double ⟨0⟩
    let other : Scalar := .double ⟨0x8000000000000000⟩
    let nan : Scalar := .double ⟨0x7ff8000000000000⟩
    let lenient : CodecConfig := { duplicateKeys := .lastWriteWins }
    let pair (name : Scalar) (byte : UInt8) : Value × Value :=
      (.atom name.toAtom, .atom (.byte byte))
    let entry (name : Scalar) (byte : UInt8) : Argument :=
      .dictEntry ⟨"\x7bdy\x7d"⟩ name (.scalar (.byte byte))
    let dict : Argument :=
      .array ⟨"\x7bdy\x7d"⟩ ⟨"a\x7bdy\x7d"⟩ [entry zero 1, entry other 2]
    ((Argument.scalar zero).same (.scalar other) = true ∧
      zero.fingerprint ≠ other.fingerprint ∧
      encode .standard "a\x7bdy\x7d" (.map [pair zero 1, pair other 2]) = .ok dict ∧
      encode lenient "a\x7bdy\x7d" (.map [pair zero 1, pair other 2]) = .ok dict ∧
      dictLookup .standard dict "\x7bdy\x7d" (.atom zero.toAtom) = .ok (.atom (.byte 2))) ∧
    (Argument.scalar nan).same (.scalar nan) = false ∧
      encode .standard "a\x7bdy\x7d" (.map [pair nan 1, pair nan 2]) =
        .error (.duplicateKey nan.fingerprint) := by
  intro zero other nan lenient pair entry dict
  have different : zero.fingerprint ≠ other.fingerprint := by decide
  exact ⟨⟨rfl, different, rfl, rfl, rfl⟩, rfl, rfl⟩

end MessageArgs
