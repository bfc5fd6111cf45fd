import Mathlib.Algebra.GroupWithZero.Nat
import MessageArgs.Envelope
import MessageArgs.Proofs.ArgList.History
import MessageArgs.Proofs.Encoding.Conforming
import MessageArgs.Proofs.Signature.Parts

/-!
# Signatures one after the other

Putting the texts of signatures one after the other puts their types one after the other
(`Signature.charsAll_types`), since no type of a signature is left open for what follows. So
`Signature.concat_eq` needs to look at lengths only, and the elements of the result are those of the
parts (`Signature.elements_joined`).

Argument lists and envelopes have no signature of their own but the one that their arguments make
up. If the arguments were encoded under a signature, it is that one (`signatures_of_encodeAll`).
-/

namespace MessageArgs

open MessageArgs.CompleteType (charsAll)

namespace Signature

variable {signature : Signature} {parts : List Signature}

/-! ## Concatenation -/

/-- A storable signature spells its types, and arguments may store each of them. -/
theorem Storable.spelled (storable : signature.Storable) :
    charsAll signature.types = signature.text.toList ∧
      ∀ type ∈ signature.types, Grammar.stored.Admits type := by
  obtain ⟨found, read⟩ := storable_iff.1 storable
  have wide : Grammar.widest.read signature.text = .ok found :=
    Grammar.read_mono read (fun _ => rfl) fun _ => rfl
  have same : signature.types = found := by rw [types, wide]
  rw [same]
  exact (Grammar.read_iff.1 read).2

theorem Storable.elements_eq (storable : signature.Storable) :
    signature.elements = signature.types.map ofType :=
  Signature.elements_eq storable.spelled.1.symm

theorem charsAll_types (storable : ∀ part ∈ parts, part.Storable) :
    charsAll (parts.flatMap types) = (joined parts).toList := by
  induction parts with
  | nil => rfl
  | cons part parts ih =>
    rw [List.forall_mem_cons] at storable
    rw [List.flatMap_cons, CompleteType.charsAll_append, storable.1.spelled.1, ih storable.2,
      joined, joined, List.map_cons, String.join_cons, String.toList_append]

theorem utf8ByteSize_joined (parts : List Signature) :
    (joined parts).utf8ByteSize = (parts.map length).sum := by
  induction parts with
  | nil => rfl
  | cons part parts ih =>
    rw [List.map_cons, List.sum_cons, ← ih, joined, joined, List.map_cons, String.join_cons,
      String.utf8ByteSize_append]
    rfl

/-- Storable signatures are concatenated unless they are too long together. -/
theorem concat_eq (storable : ∀ part ∈ parts, part.Storable) :
    concat parts = if (parts.map length).sum ≤ maxLength then .ok ⟨joined parts⟩
      else .error (.tooLong (parts.map length).sum maxLength) := by
  rw [concat, ← utf8ByteSize_joined]
  split
  · rename_i short
    refine Grammar.parse_iff.2 ⟨rfl, parts.flatMap types, Grammar.read_iff.2 ?_⟩
    refine ⟨short, charsAll_types storable, ?_⟩
    rw [List.forall_mem_flatMap]
    exact fun part member => (storable part member).spelled.2
  · rename_i long
    rw [Grammar.parse, Grammar.read, if_pos (by omega)]
    rfl

theorem elements_joined (storable : ∀ part ∈ parts, part.Storable) :
    (Signature.mk (joined parts)).elements = parts.flatMap elements := by
  have spelled : (Signature.mk (joined parts)).text.toList = charsAll (parts.flatMap types) :=
    (charsAll_types storable).symm
  rw [Signature.elements_eq spelled, List.map_flatMap]
  exact List.flatMap_congr fun part member => (storable part member).elements_eq.symm

theorem IsStored.storable (stored : signature.IsStored) : signature.Storable := by
  obtain ⟨type, rfl, accepted⟩ := isStored_iff.1 stored
  exact storable_ofType_iff.2 accepted

theorem IsStored.elements_eq (stored : signature.IsStored) : signature.elements = [signature] := by
  obtain ⟨type, rfl, -⟩ := isStored_iff.1 stored
  exact Signature.elements_eq (spelled_ofType type)

/-- What is known of signatures that are concatenated. -/
theorem concat_iff (storable : ∀ part ∈ parts, part.Storable) :
    ((∃ whole, concat parts = .ok whole) ↔ (parts.map length).sum ≤ maxLength) ∧
      (∀ whole, concat parts = .ok whole → whole.elements = parts.flatMap elements) ∧
      ∀ error, concat parts = .error error →
        error = .tooLong (parts.map length).sum maxLength := by
  rw [concat_eq storable]
  split
  · rename_i short
    refine ⟨by simp [short], ?_, nofun⟩
    rintro _ ⟨⟩
    exact elements_joined storable
  · rename_i long
    refine ⟨by simp [long], nofun, ?_⟩
    rintro _ ⟨⟩
    rfl

end Signature

/-! ## Arguments -/

theorem storable_signatures {args : List Argument} (formed : ∀ arg ∈ args, arg.WellFormed) :
    ∀ part ∈ args.map Argument.signature, part.Storable := by
  rw [List.forall_mem_map]
  exact fun arg member => (formed arg member).isStored.storable

/-- Each argument makes up one element. -/
theorem flatMap_elements {args : List Argument} (formed : ∀ arg ∈ args, arg.WellFormed) :
    (args.map Argument.signature).flatMap Signature.elements = args.map Argument.signature := by
  rw [List.flatMap_map]
  calc args.flatMap (fun arg => arg.signature.elements)
      = args.flatMap fun arg => [arg.signature] :=
        List.flatMap_congr fun arg member => (formed arg member).isStored.elements_eq
    _ = args.map Argument.signature := List.flatMap_pure_eq_map Argument.signature args

/-- Arguments that are encoded under some types have these types. -/
theorem Encoding.signatures_of_encodeComplete {config : CodecConfig} {types : List CompleteType}
    {values : List Value} {args : List Argument}
    (accepted : ∀ type ∈ types, Grammar.caller.Accepts type) (arity : types.length = values.length)
    (h : List.Forall₂ (fun slot arg => encodeComplete config slot.1 slot.2 = .ok arg)
      (types.zip values) args) :
    args.map Argument.signature = types.map .ofType := by
  have each : ∀ slot ∈ types.zip values, ∀ result,
      encodeComplete config slot.1 slot.2 = .ok result ↔
        (Conforms config slot.1 slot.2 ∧ (tree slot.1 slot.2).depth ≤ config.maxDepth) ∧
          result = tree slot.1 slot.2 := by
    intro slot member result
    rw [encodeComplete_iff, encodeAs_iff (accepted slot.1 (List.of_mem_zip member).1)]
    constructor
    · rintro ⟨⟨conforms, rfl⟩, shallow⟩
      exact ⟨⟨conforms, shallow⟩, rfl⟩
    · rintro ⟨⟨conforms, shallow⟩, rfl⟩
      exact ⟨⟨conforms, rfl⟩, shallow⟩
  obtain ⟨fits, rfl⟩ := (forall₂_ok_iff each).1 h
  rw [← treeAll_eq]
  refine signature_treeAll (allConform_iff.2 ⟨arity, fun slot member => (fits slot member).1⟩) ?_
  exact fun type member => (accepted type member).ne_wildcard

/-- Arguments that are encoded under a signature make it up. -/
theorem signatures_of_encodeAll {config : CodecConfig} {text : String} {values : List Value}
    {args : List Argument} (h : encodeAll config text values = .ok args) :
    Signature.concat (args.map Argument.signature) = .ok ⟨text⟩ := by
  obtain ⟨types, read, arity, encoded⟩ := encodeAll_iff.1 h
  have spelled := (Grammar.read_iff.1 read).2.1
  have whole : Signature.joined (types.map .ofType) = text := by
    rw [← String.toList_inj, Signature.joined_ofType, spelled]
  have stored : Grammar.stored.read text = .ok types :=
    Grammar.read_mono read id fun bare => absurd bare Bool.false_ne_true
  rw [Encoding.signatures_of_encodeComplete (Grammar.accepts_of_read read) arity encoded,
    Signature.concat, whole]
  exact Grammar.parse_iff.2 ⟨rfl, types, stored⟩

namespace ArgList

variable {list next : ArgList} {args : List Argument}

theorem signature_of_slots (filled : list.slots = args.map some) :
    list.signature = (Signature.concat (args.map Argument.signature)).mapError .signature := by
  rw [signature, arguments, argumentsFrom_ok_iff.2 filled]
  rfl

/-- The arguments of a list cannot be collected beyond the first slot that is not set. -/
theorem argumentsFrom_of_empty {slots : List (Option Argument)} (index : Nat) {i : Nat}
    (unset : slots[i]? = some none) (earlier : ∀ j < i, slots[j]? ≠ some none) :
    argumentsFrom index slots = .error (.emptySlot (index + i)) := by
  induction slots generalizing index i with
  | nil => simp at unset
  | cons slot slots ih =>
    cases i with
    | zero =>
      rw [List.getElem?_cons_zero, Option.some.injEq] at unset
      rw [unset]
      rfl
    | succ i =>
      cases slot with
      | none => exact absurd rfl (earlier 0 (Nat.succ_pos i))
      | some arg =>
        have rest := ih (index + 1) unset fun j less => earlier (j + 1) (Nat.succ_lt_succ less)
        rw [argumentsFrom, rest, Nat.add_right_comm index 1 i]
        rfl

/-- Writing to all slots leaves nothing else. -/
theorem Write.Done.slots_eq {contents : List (Option Argument)}
    (done : (Write.mk 0 contents).Done list next) (whole : contents.length = list.length) :
    next.slots = contents := by
  refine List.ext_getElem? fun i => ?_
  have written := Write.at?_add 0 contents i
  rw [Nat.zero_add] at written
  rw [done.slots, written]
  rcases Nat.lt_or_ge i contents.length with inside | outside
  · rw [List.getElem?_eq_getElem inside, Option.some_or]
  · have behind : list.slots.length ≤ i := Nat.le_trans (Nat.le_of_eq whole.symm) outside
    rw [List.getElem?_eq_none outside, List.getElem?_eq_none behind, Option.none_or]

/-- A list of as many slots as a signature has elements, filled under the signature. -/
theorem signature_of_setMany {text : String} {types : List CompleteType} {values : List Value}
    {count : Nat} (read : Grammar.caller.read text = .ok types)
    (whole : list.length = types.length) (h : list.setMany 0 text values = .ok (count, next)) :
    next.signature = .ok ⟨text⟩ := by
  obtain ⟨elements, args, split, encoded, arity, -, done⟩ := setMany_ok_iff.1 h
  obtain ⟨types', read', rfl⟩ := Grammar.split_ok_iff.1 split
  cases read.symm.trans read'
  rw [List.length_map] at arity
  have filled := done.slots_eq (by rw [List.length_map, arity, whole])
  rw [signature_of_slots filled, signatures_of_encodeAll encoded]
  rfl

theorem setMany_of_encodeAll {text : String} {values : List Value}
    (encoded : encodeAll list.config text values = .ok args) (whole : list.length = args.length) :
    ∃ next, list.setMany 0 text values = .ok (args.length, next) := by
  obtain ⟨types, read, arity⟩ := length_of_encodeAll encoded
  have range : list.checkRange 0 types.length = .ok () := checkRange_iff.2 (by omega)
  rw [setMany, read]
  show ∃ next, (list.checkRange 0 types.length >>= fun _ => _) = .ok (args.length, next)
  rw [range]
  show ∃ next, (encodeAll list.config text values >>= fun _ => _) = .ok (args.length, next)
  rw [encoded]
  exact ⟨_, rfl⟩

end ArgList

/-! ## Main result -/

/-- Signatures that arguments may store, one after the other. Only their lengths together can stand
in the way, and the elements of the whole are those of the parts. So the signature of an envelope or
of an argument list with all slots set has the signatures of the arguments as its elements, in
order; a list names its first slot that is not set. An envelope of values has the signature under
which the values were encoded, and so has a list of as many slots after they are set together. -/
theorem concatenated_elements :
    (∀ parts : List Signature, (∀ part ∈ parts, part.Storable) →
      ((∃ whole, Signature.concat parts = .ok whole) ↔
        (parts.map Signature.length).sum ≤ maxLength) ∧
      (∀ whole, Signature.concat parts = .ok whole →
        whole.elements = parts.flatMap Signature.elements) ∧
      ∀ error, Signature.concat parts = .error error →
        error = .tooLong (parts.map Signature.length).sum maxLength) ∧
    (∀ args : List Argument, (∀ arg ∈ args, arg.WellFormed) →
      (∀ list : ArgList, list.slots = args.map some →
        ((∃ whole, list.signature = .ok whole) ↔
          (args.map fun arg => arg.signature.length).sum ≤ maxLength) ∧
        ∀ whole, list.signature = .ok whole → whole.elements = args.map Argument.signature) ∧
      ∀ envelope : Envelope, envelope.args = args →
        ((∃ whole, envelope.signature = .ok whole) ↔
          (args.map fun arg => arg.signature.length).sum ≤ maxLength) ∧
        ∀ whole, envelope.signature = .ok whole →
          whole.elements = args.map Argument.signature) ∧
    (∀ (list : ArgList) (i : Nat), list.slots[i]? = some none →
      (∀ j < i, list.slots[j]? ≠ some none) → list.signature = .error (.emptySlot i)) ∧
    ∀ seq member text values envelope, Envelope.ofValues seq member text values = .ok envelope →
      envelope.signature = .ok ⟨text⟩ ∧
      ∀ list : ArgList, list.length = envelope.args.length →
        (list.config = .standard → ∃ next,
          list.setMany 0 text values = .ok (list.length, next) ∧ next.signature = .ok ⟨text⟩) ∧
        ∀ count next, list.setMany 0 text values = .ok (count, next) →
          next.signature = .ok ⟨text⟩ := by
  refine ⟨fun parts storable => Signature.concat_iff storable, fun args formed => ?_,
    fun list i unset earlier => ?_, fun seq member text values envelope made => ?_⟩
  · obtain ⟨succeeds, elements, -⟩ := Signature.concat_iff (storable_signatures formed)
    rw [List.map_map] at succeeds
    rw [flatMap_elements formed] at elements
    constructor
    · intro list filled
      simp only [ArgList.signature_of_slots filled, mapError_ok_iff]
      exact ⟨succeeds, elements⟩
    · rintro envelope rfl
      exact ⟨succeeds, elements⟩
  · have failed := ArgList.argumentsFrom_of_empty 0 unset earlier
    rw [ArgList.signature, ArgList.arguments, failed, Nat.zero_add]
    rfl
  · obtain ⟨args, encoded, rfl⟩ := Envelope.ofValues_ok_iff.1 made
    obtain ⟨types, read, arity⟩ := ArgList.length_of_encodeAll encoded
    refine ⟨signatures_of_encodeAll encoded, fun list whole => ?_⟩
    have slots : list.length = types.length := whole.trans arity
    refine ⟨fun standard => ?_, fun count next set => ArgList.signature_of_setMany read slots set⟩
    rw [← standard] at encoded
    obtain ⟨next, set⟩ := ArgList.setMany_of_encodeAll encoded whole
    exact ⟨next, whole ▸ set, ArgList.signature_of_setMany read slots set⟩

/-- A text and numbers, in an envelope and in a list that was empty. -/
theorem concatenated_elements_set :
    let values := [.atom (.string "x"), .seq [.atom (.int32 1), .atom (.int32 2)]]
    ∃ envelope next, Envelope.ofValues 7 "Put" "sai" values = .ok envelope ∧
      envelope.signature = .ok ⟨"sai"⟩ ∧
      (ArgList.empty 2 .standard).signature = .error (.emptySlot 0) ∧
      (ArgList.empty 2 .standard).setMany 0 "sai" values = .ok (2, next) ∧
      next.signature = .ok ⟨"sai"⟩ ∧ Signature.elements ⟨"sai"⟩ = [⟨"s"⟩, ⟨"ai"⟩] := by
  intro values
  obtain ⟨-, gathered, unset, filled⟩ := concatenated_elements
  obtain ⟨envelope, made⟩ : ∃ envelope, Envelope.ofValues 7 "Put" "sai" values = .ok envelope :=
    ⟨_, rfl⟩
  obtain ⟨named, sets⟩ := filled _ _ _ _ envelope made
  cases made
  obtain ⟨next, set, same⟩ := (sets (ArgList.empty 2 .standard) rfl).1 rfl
  have carried : ∀ value ∈ values, value.WellFormed := by
    simp [values, Value.WellFormed, Value.arguments, Value.argumentsOfAll]
  have formed := @encodeAll_wellFormed .standard "sai" _ _ rfl carried
  have elements := ((gathered _ formed).2 _ rfl).2 _ named
  have nothingBefore : ∀ i < 0, (ArgList.empty 2 .standard).slots[i]? ≠ some none :=
    fun i before => absurd before (Nat.not_lt_zero i)
  exact ⟨_, next, rfl, named, unset _ 0 rfl nothingBefore, set, same, elements⟩

end MessageArgs
