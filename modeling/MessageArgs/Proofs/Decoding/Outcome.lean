import Mathlib.Logic.Function.Iterate
import MessageArgs.Proofs.Argument.Nodes
import MessageArgs.Proofs.Decoding.Rules

/-!
# What decoding comes to

The decoder compares signatures in many places: at every level it takes off variants, compares the
types of items and members and reads them one by one. For a well-formed argument and a type
without wildcards all this amounts to one comparison at the root.

* `decodeAs_mismatch`: if the types differ at the root, decoding fails there.
* `keysDecide`: if they agree, nothing below the root can differ, and decoding hinges on the
  keys of the dictionaries alone.
* `decode_outcome`: both together, for all arguments and types.
-/

namespace MessageArgs

namespace Decoding

open Signature (ofType)

variable {α β : Type} {config : CodecConfig} {arg : Argument}

/-! ## Steps that fail for repeated keys only -/

/-- A step succeeds exactly if `P` holds, and if it fails, it is for a key that comes twice. -/
def HingesOn (P : Prop) : Except CodecError α → Prop
  | .ok _ => P
  | .error error => ¬ P ∧ ∃ name, error = .duplicateKey name

theorem hingesOn_ok {P : Prop} {value : α} (holds : P) : HingesOn P (.ok value : Except _ α) :=
  holds

theorem HingesOn.congr {P Q : Prop} {step : Except CodecError α} (h : HingesOn P step)
    (same : P ↔ Q) : HingesOn Q step := by
  rwa [← propext same]

theorem HingesOn.bind {P Q : Prop} {first : Except CodecError α}
    {next : α → Except CodecError β} (h : HingesOn P first)
    (h' : ∀ value, first = .ok value → HingesOn Q (next value)) :
    HingesOn (P ∧ Q) (first >>= next) := by
  cases first with
  | error error => exact ⟨fun both => h.1 both.1, h.2⟩
  | ok value =>
    have after := h' value rfl
    show HingesOn (P ∧ Q) (next value)
    cases outcome : next value with
    | error error =>
      rw [outcome] at after
      exact ⟨fun both => after.1 both.2, after.2⟩
    | ok result =>
      rw [outcome] at after
      exact ⟨h, after⟩

/-- What is done with the result in the end does not matter. -/
theorem HingesOn.pure {P : Prop} {first : Except CodecError α} {f : α → β} (h : HingesOn P first) :
    HingesOn P (first >>= fun value => Pure.pure (f value)) := by
  cases first <;> exact h

theorem hingesOn_mapM {P : α → Prop} {step : α → Except CodecError β} {items : List α}
    (each : ∀ item ∈ items, HingesOn (P item) (step item)) :
    HingesOn (∀ item ∈ items, P item) (items.mapM step) := by
  induction items with
  | nil => exact hingesOn_ok (by simp)
  | cons item items ih =>
    rw [List.forall_mem_cons] at each
    rw [List.mapM_cons]
    refine (each.1.bind fun _ _ => (ih each.2).pure).congr ?_
    rw [List.forall_mem_cons]

theorem hingesOn_apply (policy : DuplicateKeys) (keyed : List (String × α)) :
    HingesOn (policy = .reject → (keyed.map Prod.fst).Nodup) (policy.apply keyed) := by
  cases outcome : policy.apply keyed with
  | ok items => exact (DuplicateKeys.apply_iff.1 outcome).1
  | error error =>
    refine ⟨fun distinct => ?_, DuplicateKeys.apply_error outcome⟩
    rw [DuplicateKeys.apply_iff.2 ⟨distinct, rfl⟩] at outcome
    cases outcome

/-! ## Agreement at the root -/

/-- Where repeated keys are refused, there are none outside of variants. -/
def Passes (config : CodecConfig) (arg : Argument) : Prop :=
  config.duplicateKeys = .reject → ¬ arg.RepeatsKey false

theorem passes_array_iff {element signature : Signature} {items : List Argument} :
    Passes config (.array element signature items) ↔ (∀ item ∈ items, Passes config item) ∧
      (config.duplicateKeys = .reject →
        (Argument.array element signature items).keyNames.Nodup) := by
  simp only [Passes, Argument.repeatsKey_array_iff]
  grind

theorem passes_struct_iff {signature : Signature} {members : List Argument} :
    Passes config (.struct signature members) ↔ ∀ member ∈ members, Passes config member := by
  simp only [Passes, Argument.repeatsKey_struct_iff]
  grind

theorem passes_entry_iff {signature : Signature} {key : Scalar} {value : Argument} :
    Passes config (.dictEntry signature key value) ↔ Passes config value := by
  rw [Passes, Argument.repeatsKey_entry_iff, Passes]

/-- Decoding a well-formed argument under its own type hinges on the keys. -/
def KeysDecide (config : CodecConfig) (type : CompleteType) : Prop :=
  ∀ arg : Argument, arg.WellFormed → arg.signature = ofType type →
    HingesOn (Passes config arg) (decodeAs config type arg)

theorem keysDecide_basic (type : BasicType) : KeysDecide config (.basic type) := by
  intro arg formed same
  have tags := formed.tag_eq same
  cases arg <;> cases tags
  rename_i value
  have decoded : decodeAs config (.basic value.type) (.scalar value) = .ok (.atom value.toAtom) :=
    decodeAs_basic_iff.2 ⟨value, rfl, rfl, rfl⟩
  rw [decoded]
  exact hingesOn_ok fun _ => Argument.not_repeatsKey_scalar value

theorem keysDecide_variant : KeysDecide config .variant := by
  intro arg formed same
  have tags := formed.tag_eq same
  cases arg <;> cases tags
  rename_i content
  rw [decodeAs_variant_iff.2 ⟨content, rfl, rfl⟩]
  refine hingesOn_ok fun _ repeats => ?_
  cases (Argument.repeatsKey_variant_iff.1 repeats).1

/-- A well-formed argument of an array type is an array of such items. -/
theorem eq_array_of_signature {element : CompleteType} (formed : arg.WellFormed)
    (same : arg.signature = ofType (.array element)) :
    ∃ items, arg = .array (ofType element) (ofType (.array element)) items ∧
      ∀ item ∈ items, item.WellFormed ∧ item.signature = ofType element := by
  have tags := formed.tag_eq same
  cases arg <;> cases tags
  rename_i found signature items
  obtain ⟨⟨type, rfl, rfl, -⟩, uniform, inside⟩ := Argument.wellFormed_array_iff.1 formed
  cases Signature.ofType_inj same
  exact ⟨items, rfl, fun item member => ⟨inside item member, uniform item member⟩⟩

/-- A well-formed argument of an entry type is an entry. -/
theorem eq_entry_of_signature {key : BasicType} {element : CompleteType} (formed : arg.WellFormed)
    (same : arg.signature = ofType (.entry key element)) :
    ∃ name content, arg = .dictEntry (ofType (.entry key element)) name content ∧
      name.type = key ∧ content.WellFormed ∧ content.signature = ofType element := by
  have tags := formed.tag_eq same
  cases arg <;> cases tags
  rename_i signature name content
  obtain ⟨⟨type, typed, rfl, -⟩, inside⟩ := Argument.wellFormed_entry_iff.1 formed
  cases Signature.ofType_inj same
  exact ⟨name, content, rfl, rfl, inside, typed⟩

theorem decodeEntry_hinges {key : BasicType} {element : CompleteType}
    (ih : KeysDecide config element)
    (formed : arg.WellFormed) (same : arg.signature = ofType (.entry key element)) :
    HingesOn (Passes config arg) (decodeEntry config key element arg) := by
  obtain ⟨name, content, rfl, rfl, inside, typed⟩ := eq_entry_of_signature formed same
  have named : decodeBasic name.type (.scalar name) = .ok (.atom name.toAtom) :=
    decodeBasic_iff.2 ⟨name, rfl, rfl, rfl⟩
  rw [decodeEntry, named, passes_entry_iff]
  exact (ih content inside typed).pure

/-- The fingerprints that entries are tagged with are those of their keys. -/
theorem names_of_decodeEntry {key : BasicType} {element : CompleteType} {items : List Argument}
    {keyed : List (String × Value × Value)}
    (h : List.Forall₂ (fun item keyed => decodeEntry config key element item = .ok keyed) items
      keyed) : keyed.map Prod.fst = items.filterMap Argument.keyName? := by
  induction h with
  | nil => rfl
  | cons decoded _ ih =>
    obtain ⟨_, name, _, rfl, -, -, named, -⟩ := decodeEntry_iff.1 decoded
    rw [List.map_cons, ih, named]
    rfl

theorem decodeAs_dictionary_eq {key : BasicType} {element : CompleteType} {signature : Signature}
    (items : List Argument) :
    decodeAs config (.array (.entry key element))
      (.array (ofType (.entry key element)) signature items) = (do
        let keyed ← items.mapM (decodeEntry config key element)
        let pairs ← config.duplicateKeys.apply keyed
        pure (.map pairs)) := by
  rw [decodeAs]
  exact if_neg (not_not_intro rfl)

theorem keysDecide_dictionary {key : BasicType} {element : CompleteType}
    (ih : KeysDecide config element) : KeysDecide config (.array (.entry key element)) := by
  intro arg formed same
  obtain ⟨items, rfl, inside⟩ := eq_array_of_signature formed same
  rw [decodeAs_dictionary_eq]
  have entries : HingesOn (∀ item ∈ items, Passes config item)
      (items.mapM (decodeEntry config key element)) :=
    hingesOn_mapM fun item member => decodeEntry_hinges ih (inside item member).1
      (inside item member).2
  refine (entries.bind fun keyed decoded => (hingesOn_apply _ keyed).pure.congr ?_).congr
    passes_array_iff.symm
  rw [names_of_decodeEntry (mapM_ok_iff.1 decoded)]
  rfl

theorem decodeAs_array_eq {element : CompleteType} {signature : Signature}
    (other : element.tag ≠ .dictEntry) (items : List Argument) :
    decodeAs config (.array element) (.array (ofType element) signature items) = (do
      let values ← items.mapM fun item => decodeAs config element item
      pure (.seq values)) := by
  have accepted : acceptsElement element (ofType element) = true := by
    by_cases wildcard : element = .wildcard
    · subst wildcard
      rfl
    · exact (acceptsElement_iff wildcard).2 rfl
  rw [decodeAs]
  · dsimp only [Argument.unwrapped]
    rw [if_pos accepted]
  · intro key inner entry
    subst entry
    exact other rfl

theorem keysDecide_array {element : CompleteType} (other : element.tag ≠ .dictEntry)
    (ih : KeysDecide config element) : KeysDecide config (.array element) := by
  intro arg formed same
  obtain ⟨items, rfl, inside⟩ := eq_array_of_signature formed same
  rw [decodeAs_array_eq other]
  have noEntries : ∀ item ∈ items, item.tag ≠ .dictEntry := by
    intro item member
    obtain ⟨formed, typed⟩ := inside item member
    rwa [← formed.tag_eq typed]
  have decoded : HingesOn (∀ item ∈ items, Passes config item)
      (items.mapM fun item => decodeAs config element item) :=
    hingesOn_mapM fun item member => ih item (inside item member).1 (inside item member).2
  refine decoded.pure.congr ?_
  rw [passes_array_iff, Argument.keyNames_of_tag_ne noEntries]
  simp

/-- A well-formed argument of a struct type has members of these types. -/
theorem eq_struct_of_signature {types : List CompleteType} (formed : arg.WellFormed)
    (same : arg.signature = ofType (.struct types)) :
    ∃ members, arg = .struct (ofType (.struct types)) members ∧
      members.map Argument.signature = types.map ofType ∧
      ∀ member ∈ members, member.WellFormed := by
  have tags := formed.tag_eq same
  cases arg <;> cases tags
  rename_i signature members
  obtain ⟨⟨types', typed, rfl, -⟩, inside⟩ := Argument.wellFormed_struct_iff.1 formed
  cases Signature.ofType_inj same
  exact ⟨members, rfl, typed, inside⟩

theorem signature_of_mem_zip {types : List CompleteType} {members : List Argument}
    (typed : members.map Argument.signature = types.map ofType) :
    ∀ slot ∈ types.zip members, slot.2.signature = ofType slot.1 := by
  induction types generalizing members with
  | nil => simp
  | cons type types ih =>
    cases members with
    | nil => simp
    | cons member members =>
      rw [List.map_cons, List.map_cons, List.cons.injEq] at typed
      rw [List.zip_cons_cons, List.forall_mem_cons]
      exact ⟨typed.1, ih typed.2⟩

theorem decodeAs_struct_eq {types : List CompleteType} {signature : Signature}
    {members : List Argument} (typed : members.map Argument.signature = types.map ofType) :
    decodeAs config (.struct types) (.struct signature members) = (do
      let values ← (types.zip members).mapM fun slot => decodeAs config slot.1 slot.2
      pure (.seq values)) := by
  have arity : types.length = members.length := by
    simpa using (congrArg List.length typed).symm
  have accepted : acceptsMembers types members = true :=
    acceptsMembers_iff.2 fun slot member _ => signature_of_mem_zip typed slot member
  rw [decodeAs, ← decodeMembers_eq]
  exact if_pos ⟨arity, accepted⟩

theorem keysDecide_struct {types : List CompleteType}
    (ih : ∀ type ∈ types, KeysDecide config type) : KeysDecide config (.struct types) := by
  intro arg formed same
  obtain ⟨members, rfl, typed, inside⟩ := eq_struct_of_signature formed same
  rw [decodeAs_struct_eq typed]
  have decoded : HingesOn (∀ slot ∈ types.zip members, Passes config slot.2)
      ((types.zip members).mapM fun slot => decodeAs config slot.1 slot.2) := by
    refine hingesOn_mapM fun slot member => ?_
    obtain ⟨listed, present⟩ := List.of_mem_zip member
    exact ih slot.1 listed slot.2 (inside slot.2 present) (signature_of_mem_zip typed slot member)
  refine decoded.pure.congr ?_
  have arity : members.length ≤ types.length := by
    simpa using Nat.le_of_eq (congrArg List.length typed)
  have slots : members = (types.zip members).map Prod.snd := (List.map_snd_zip arity).symm
  rw [passes_struct_iff, slots, List.forall_mem_map, ← slots]

/-- Decoding a well-formed argument under its own type hinges on its keys. -/
theorem keysDecide {type : CompleteType} (accepted : Grammar.caller.Accepts type) :
    KeysDecide config type := by
  induction accepted using Grammar.Accepts.slots with
  | basic type => exact keysDecide_basic type
  | variant => exact keysDecide_variant
  | dictionary key element accepted inside ih => exact keysDecide_dictionary ih
  | array element accepted other inside ih => exact keysDecide_array other ih
  | struct types accepted inside ih => exact keysDecide_struct ih

/-! ## Disagreement at the root -/

theorem unwrapped_unwrapped (arg : Argument) : arg.unwrapped.unwrapped = arg.unwrapped := by
  induction arg using Argument.induction with
  | variant content ih => exact ih
  | _ => rfl

theorem unwrapped_wellFormed (formed : arg.WellFormed) : arg.unwrapped.WellFormed := by
  induction arg using Argument.induction with
  | variant content ih => exact ih (Argument.wellFormed_variant_iff.1 formed)
  | _ => exact formed

/-- Variants around an argument do not matter to any type but that of variants. -/
theorem decodeAs_unwrapped {type : CompleteType} (named : type ≠ .variant)
    (resolved : type ≠ .wildcard) :
    decodeAs config type arg = decodeAs config type arg.unwrapped := by
  cases type with
  | variant => exact absurd rfl named
  | wildcard => exact absurd rfl resolved
  | array element => cases element <;> simp only [decodeAs, unwrapped_unwrapped]
  | _ => simp only [decodeAs, unwrapped_unwrapped]

theorem decodeAs_iterate_variant {type : CompleteType} (named : type ≠ .variant)
    (resolved : type ≠ .wildcard) (layers : Nat) :
    decodeAs config type (Argument.variant^[layers] arg) = decodeAs config type arg := by
  have inside : (Argument.variant^[layers] arg).unwrapped = arg.unwrapped := by
    induction layers with
    | zero => rfl
    | succ layers ih => rw [Function.iterate_succ_apply', Argument.unwrapped, ih]
  rw [decodeAs_unwrapped named resolved, inside, ← decodeAs_unwrapped named resolved]

/-- Members are accepted by the types that their signatures spell, and by no others. -/
theorem acceptsMembers_resolved_iff {types : List CompleteType} {members : List Argument}
    (arity : types.length = members.length) (resolved : ∀ type ∈ types, type.hasWildcard = false) :
    acceptsMembers types members = true ↔ members.map Argument.signature = types.map ofType := by
  rw [acceptsMembers_iff]
  constructor
  · intro accepted
    have typed : (types.zip members).map (fun slot => slot.2.signature) =
        (types.zip members).map fun slot => ofType slot.1 :=
      List.map_congr_left fun slot member =>
        accepted slot member (resolved slot.1 (List.of_mem_zip member).1)
    calc members.map Argument.signature
        = ((types.zip members).map Prod.snd).map Argument.signature := by
          rw [List.map_snd_zip (by omega)]
      _ = ((types.zip members).map Prod.fst).map ofType := by
          rw [List.map_map, List.map_map]
          exact typed
      _ = types.map ofType := by rw [List.map_fst_zip (by omega)]
  · intro typed slot member _
    exact signature_of_mem_zip typed slot member

theorem decodeAs_mismatch_basic {type : BasicType}
    (different : arg.unwrapped.signature ≠ ofType (.basic type)) :
    decodeAs config (.basic type) arg = .error (mismatch (.basic type) arg.unwrapped) := by
  rw [decodeAs]
  cases found : arg.unwrapped with
  | scalar value =>
    rw [found] at different
    refine if_neg fun same => different ?_
    rw [← same]
    rfl
  | _ => rfl

/-- An array that has another signature has other elements. -/
theorem ne_of_signature_ne {element : CompleteType} {found signature : Signature}
    {items : List Argument} (formed : arg.WellFormed) (shape : arg = .array found signature items)
    (different : arg.signature ≠ ofType (.array element)) : found ≠ ofType element := by
  subst shape
  obtain ⟨⟨type, spelled, rfl, -⟩, -, -⟩ := Argument.wellFormed_array_iff.1 formed
  rintro rfl
  rw [Signature.ofType_inj spelled] at different
  exact different rfl

theorem decodeAs_mismatch_dictionary {key : BasicType} {element : CompleteType}
    (formed : arg.WellFormed)
    (different : arg.unwrapped.signature ≠ ofType (.array (.entry key element))) :
    decodeAs config (.array (.entry key element)) arg =
      .error (mismatch (.array (.entry key element)) arg.unwrapped) := by
  rw [decodeAs]
  cases shape : arg.unwrapped with
  | array found signature items =>
    have other := ne_of_signature_ne (unwrapped_wellFormed formed) shape different
    exact if_pos fun same => other (Signature.eq_iff.2 same)
  | _ => rfl

theorem decodeAs_mismatch_array {element : CompleteType} (other : element.tag ≠ .dictEntry)
    (resolved : element ≠ .wildcard) (formed : arg.WellFormed)
    (different : arg.unwrapped.signature ≠ ofType (.array element)) :
    decodeAs config (.array element) arg = .error (mismatch (.array element) arg.unwrapped) := by
  have apart : ∀ {found signature items}, arg.unwrapped = .array found signature items →
      acceptsElement element found ≠ true := fun shape fits =>
    ne_of_signature_ne (unwrapped_wellFormed formed) shape different
      ((acceptsElement_iff resolved).1 fits)
  cases element with
  | entry => exact absurd rfl other
  | _ =>
    rw [decodeAs]
    · cases shape : arg.unwrapped with
      | array found signature items => exact if_neg (apart shape)
      | _ => rfl
    · intro _ _ same
      cases same

theorem decodeAs_mismatch_struct {types : List CompleteType}
    (resolved : ∀ type ∈ types, type.hasWildcard = false) (formed : arg.WellFormed)
    (different : arg.unwrapped.signature ≠ ofType (.struct types)) :
    decodeAs config (.struct types) arg = .error (mismatch (.struct types) arg.unwrapped) := by
  rw [decodeAs]
  cases shape : arg.unwrapped with
  | struct signature members =>
    refine if_neg fun fits => different ?_
    have formed := unwrapped_wellFormed formed
    rw [shape] at formed ⊢
    obtain ⟨⟨types', spelled, rfl, -⟩, -⟩ := Argument.wellFormed_struct_iff.1 formed
    have typed := (acceptsMembers_resolved_iff fits.1 resolved).1 fits.2
    rw [spelled] at typed
    rw [List.map_injective_iff.2 (fun _ _ => Signature.ofType_inj) typed]
    rfl
  | _ => rfl

/-- Decoding under a type that an argument does not have fails at the root. -/
theorem decodeAs_mismatch {type : CompleteType} (accepted : Grammar.caller.Accepts type)
    (formed : arg.WellFormed) (named : type ≠ .variant)
    (different : arg.unwrapped.signature ≠ ofType type) :
    decodeAs config type arg = .error (mismatch type arg.unwrapped) := by
  induction accepted using Grammar.Accepts.slots with
  | basic type => exact decodeAs_mismatch_basic different
  | variant => exact absurd rfl named
  | dictionary key element => exact decodeAs_mismatch_dictionary formed different
  | array element accepted other inside =>
    exact decodeAs_mismatch_array other inside.ne_wildcard formed different
  | struct types accepted inside =>
    exact decodeAs_mismatch_struct (fun type member => (inside type member).hasWildcard_eq rfl)
      formed different

/-- A text is not the signature that decoding compares: for variants, that of the argument itself,
and for all other types, that of the argument without the variants around it. -/
def Mismatches (text : String) (arg : Argument) : Prop :=
  text = "v" ∧ arg.tag ≠ .variant ∨ text ≠ "v" ∧ arg.unwrapped.signature.text ≠ text

/-- The keys decide about an argument that has the type asked for. -/
def KeysAllow (config : CodecConfig) (text : String) (arg : Argument) : Prop :=
  config.duplicateKeys = .reject → text ≠ "v" → ¬ arg.unwrapped.RepeatsKey false

theorem text_eq_variant_iff {type : CompleteType} : type.text = "v" ↔ type = .variant :=
  ⟨fun same => CompleteType.text_inj (same.trans rfl), fun same => same ▸ rfl⟩

/-- An argument either mismatches, which is reported for the root, or hinges on its keys. -/
theorem decodeAs_cases (config : CodecConfig) {type : CompleteType}
    (accepted : Grammar.caller.Accepts type) (formed : arg.WellFormed) :
    (Mismatches type.text arg ∧ decodeAs config type arg = .error (.signatureMismatch type.text
      (if type.text = "v" then arg else arg.unwrapped).signature.text)) ∨
    (¬ Mismatches type.text arg ∧
      HingesOn (KeysAllow config type.text arg) (decodeAs config type arg)) := by
  by_cases named : type = .variant
  · subst named
    have spelled : CompleteType.variant.text = "v" := rfl
    rw [if_pos spelled]
    cases arg with
    | variant content =>
      refine Or.inr ⟨?_, fun _ other => absurd spelled other⟩
      rintro (⟨-, other⟩ | ⟨other, -⟩)
      · exact other rfl
      · exact other spelled
    | _ => exact Or.inl ⟨Or.inl ⟨spelled, nofun⟩, rfl⟩
  · have spelled : type.text ≠ "v" := mt text_eq_variant_iff.1 named
    rw [if_neg spelled]
    by_cases same : arg.unwrapped.signature = ofType type
    · refine Or.inr ⟨?_, ?_⟩
      · rintro (⟨variant, -⟩ | ⟨-, different⟩)
        · exact spelled variant
        · rw [same] at different
          exact different rfl
      · rw [decodeAs_unwrapped named accepted.ne_wildcard]
        refine (keysDecide accepted _ (unwrapped_wellFormed formed) same).congr ?_
        exact ⟨fun passes strict _ => passes strict, fun allowed strict => allowed strict spelled⟩
    · refine Or.inl ⟨Or.inr ⟨spelled, ?_⟩, decodeAs_mismatch accepted formed named same⟩
      rwa [Signature.eq_iff] at same

end Decoding

/-- What decoding a well-formed argument under one type comes to. It mismatches exactly if the
signatures differ at the root, and the report names the root. Otherwise it succeeds, unless repeated
keys are refused and some dictionary outside of variants has one. There are no other errors. Unless
the type is that of variants, further variants around the argument change nothing. -/
theorem decode_outcome {text : String} {type : CompleteType} {arg : Argument}
    (single : Grammar.caller.read text = .ok [type]) (formed : arg.WellFormed)
    (config : CodecConfig) :
    ((∃ expected found, decode config text arg = .error (.signatureMismatch expected found)) ↔
      Decoding.Mismatches text arg) ∧
    ((∃ name, decode config text arg = .error (.duplicateKey name)) ↔
      ¬ Decoding.Mismatches text arg ∧ config.duplicateKeys = .reject ∧ text ≠ "v" ∧
        arg.unwrapped.RepeatsKey false) ∧
    ((∃ value, decode config text arg = .ok value) ↔
      ¬ Decoding.Mismatches text arg ∧
        (config.duplicateKeys = .reject → text ≠ "v" → ¬ arg.unwrapped.RepeatsKey false)) ∧
    (∀ error, decode config text arg = .error error →
      error = .signatureMismatch text
        (if text = "v" then arg else arg.unwrapped).signature.text ∨
      ∃ name, error = .duplicateKey name) ∧
    (text ≠ "v" → ∀ layers, decode config text (Argument.variant^[layers] arg) =
      decode config text arg) ∧
    decodeSignature config ⟨text⟩ arg = decode config text arg := by
  obtain ⟨rfl, accepted⟩ := Grammar.read_single single
  simp only [decode_of_single single]
  have unchanged : type.text ≠ "v" → ∀ layers,
      Decoding.decodeAs config type (Argument.variant^[layers] arg) =
        Decoding.decodeAs config type arg := by
    intro other layers
    have named : type ≠ .variant := mt Decoding.text_eq_variant_iff.2 other
    exact Decoding.decodeAs_iterate_variant named accepted.ne_wildcard layers
  have signature := decodeSignature_ofType accepted config arg
  rcases Decoding.decodeAs_cases config accepted formed with
    ⟨mismatch, failed⟩ | ⟨fits, hinges⟩
  · refine ⟨?_, ?_, ?_, ?_, unchanged, signature⟩
    · simp [failed, mismatch]
    · simp [failed, mismatch]
    · simp [failed, mismatch]
    · intro error same
      rw [failed] at same
      cases same
      exact Or.inl rfl
  · cases outcome : Decoding.decodeAs config type arg with
    | ok value =>
      rw [outcome] at hinges
      refine ⟨?_, ?_, ?_, nofun, outcome ▸ unchanged, outcome ▸ signature⟩
      · simp [fits]
      · simp only [reduceCtorEq, exists_false, false_iff, not_and]
        exact fun _ strict other => hinges strict other
      · simp only [Except.ok.injEq, exists_eq', true_iff]
        exact ⟨fits, hinges⟩
    | error error =>
      rw [outcome] at hinges
      obtain ⟨refused, name, rfl⟩ := hinges
      refine ⟨?_, ?_, ?_, ?_, outcome ▸ unchanged, outcome ▸ signature⟩
      · simp [fits]
      · simp only [Decoding.KeysAllow, not_forall, not_not] at refused
        obtain ⟨strict, other, repeats⟩ := refused
        simp [fits, strict, other, repeats]
      · simp only [reduceCtorEq, exists_false, false_iff, not_and]
        exact fun _ => refused
      · intro error same
        cases same
        exact Or.inr ⟨name, rfl⟩

theorem decode_outcome_repeatedKey :
    let arg : Argument := .variant (.variant .repeating)
    Grammar.caller.read "a\x7bsy\x7d" = .ok [.array (.entry .string (.basic .byte))] ∧
      arg.WellFormed ∧ ¬ Decoding.Mismatches "a\x7bsy\x7d" arg ∧
      ∃ name, decode .standard "a\x7bsy\x7d" arg = .error (.duplicateKey name) := by
  intro arg
  have formed : arg.WellFormed :=
    Argument.wellFormed_variant_iff.2
      (Argument.wellFormed_variant_iff.2 Argument.repeating_wellFormed)
  have fits : ¬ Decoding.Mismatches "a\x7bsy\x7d" arg := by
    rintro (⟨other, -⟩ | ⟨-, different⟩)
    · exact absurd other (by decide)
    · exact different rfl
  refine ⟨rfl, formed, fits, (decode_outcome rfl formed .standard).2.1.2 ⟨fits, rfl, ?_, ?_⟩⟩
  · decide
  · exact Argument.repeating_repeatsKey false

end MessageArgs
