import MessageArgs.Proofs.Encoding.Rules

/-!
# What encoding passes on

`Value.arguments` lists the arguments that a value carries. A property that these have, and that the
checked constructors pass on from the parts of a container, holds of everything that the encoder
makes of the value, whatever the type and the configuration (`encodeAs_inherited`). To be well
formed is such a property (`encodeAs_wellFormed`).
-/

namespace MessageArgs

namespace Value

mutual

/-- The arguments that a value carries, in order. -/
def arguments : Value → List Argument
  | atom _ => []
  | seq items => argumentsOfAll items
  | map pairs => argumentsOfPairs pairs
  | arg argument => [argument]

/-- The arguments that several values carry. -/
def argumentsOfAll : List Value → List Argument
  | [] => []
  | value :: values => arguments value ++ argumentsOfAll values

/-- The arguments that the keys and values of a map carry. -/
def argumentsOfPairs : List (Value × Value) → List Argument
  | [] => []
  | (key, value) :: pairs => arguments key ++ arguments value ++ argumentsOfPairs pairs

end

theorem argumentsOfAll_eq (values : List Value) :
    argumentsOfAll values = values.flatMap arguments := by
  induction values with
  | nil => rfl
  | cons value values ih => rw [argumentsOfAll, ih, List.flatMap_cons]

theorem argumentsOfPairs_eq (pairs : List (Value × Value)) :
    argumentsOfPairs pairs = pairs.flatMap fun pair => arguments pair.1 ++ arguments pair.2 := by
  induction pairs with
  | nil => rfl
  | cons pair pairs ih => rw [argumentsOfPairs, ih, List.flatMap_cons]

@[simp]
theorem arguments_arg {P : Argument → Prop} {argument : Argument} :
    (∀ given ∈ (arg argument).arguments, P given) ↔ P argument := by
  rw [arguments, List.forall_mem_singleton]

@[simp]
theorem arguments_seq {P : Argument → Prop} {items : List Value} :
    (∀ given ∈ (seq items).arguments, P given) ↔
      ∀ item ∈ items, ∀ given ∈ item.arguments, P given := by
  rw [arguments, argumentsOfAll_eq, List.forall_mem_flatMap]

theorem arguments_map {P : Argument → Prop} {pairs : List (Value × Value)} :
    (∀ given ∈ (map pairs).arguments, P given) ↔ ∀ pair ∈ pairs,
      (∀ given ∈ pair.1.arguments, P given) ∧ ∀ given ∈ pair.2.arguments, P given := by
  simp only [arguments, argumentsOfPairs_eq, List.forall_mem_flatMap, List.forall_mem_append]

/-- All arguments that a value carries are well formed. -/
def WellFormed (value : Value) : Prop :=
  ∀ arg ∈ value.arguments, arg.WellFormed

theorem wellFormed_arg_iff {argument : Argument} :
    (arg argument).WellFormed ↔ argument.WellFormed :=
  arguments_arg

theorem wellFormed_seq_iff {items : List Value} :
    (seq items).WellFormed ↔ ∀ item ∈ items, item.WellFormed :=
  arguments_seq

end Value

/-! ## Properties that parts pass on -/

namespace Argument

/-- A property that the checked constructors pass on from the parts of a container. -/
structure Inherited (P : Argument → Prop) : Prop where
  items {element : Signature} {items : List Argument} {arg : Argument} :
    ofItems element items = .ok arg → (∀ item ∈ items, P item) → P arg
  members {members : List Argument} {arg : Argument} :
    ofMembers members = .ok arg → (∀ member ∈ members, P member) → P arg
  pair {name : Scalar} {content arg : Argument} :
    ofPair name content = .ok arg → P (.scalar name) → P content → P arg

theorem wellFormed_inherited : Inherited WellFormed where
  items := ofItems_wellFormed
  members := ofMembers_wellFormed
  pair made _ := ofPair_wellFormed made

end Argument

namespace Encoding

open Argument (Inherited)

variable {config : CodecConfig} {P : Argument → Prop} {value : Value} {arg : Argument}

/-- All scalars that the encoder makes have a property. -/
def MakesOnly (config : CodecConfig) (P : Argument → Prop) : Prop :=
  ∀ type atom scalar, encodeScalar config type (.atom atom) = .ok scalar → P (.scalar scalar)

theorem buildArray_inherited (inherited : Inherited P) {element : CompleteType}
    {items : List Argument} (h : buildArray element items = .ok arg)
    (each : ∀ item ∈ items, P item) : P arg := by
  by_cases wildcard : element = .wildcard
  · subst wildcard
    cases items with
    | nil => cases h
    | cons first rest => exact inherited.items (buildArray_wildcard_iff.1 h) each
  · exact inherited.items ((buildArray_iff wildcard).1 h).2 each

theorem buildDictionary_inherited (inherited : Inherited P) {entry : CompleteType}
    {keyed : List (String × Argument)} (h : buildDictionary config entry keyed = .ok arg)
    (each : ∀ item ∈ keyed, P item.2) : P arg := by
  obtain ⟨-, built⟩ := buildDictionary_iff.1 h
  refine inherited.items built (List.forall_mem_map.2 fun item kept => ?_)
  exact each item (DuplicateKeys.mem_of_mem_collapse kept)

/-- A key is made of an atom or carried, as other scalars are. -/
theorem encodeKey_inherited (made : MakesOnly config P) {type : BasicType} {name : Scalar}
    (h : encodeKey config type value = .ok name) (carried : ∀ given ∈ value.arguments, P given) :
    P (.scalar name) := by
  cases value with
  | atom atom => exact made type atom name h
  | arg given =>
    cases given with
    | scalar key =>
      rw [encodeKey] at h
      split at h
      · cases h
        exact Value.arguments_arg.1 carried
      · cases h
    | _ => cases h
  | _ => cases h

/-- What holds of the scalars that are made and of the arguments that are carried, in variants too,
and is passed on holds of the result. The keys of a dictionary are parts as well, as scalars of
their own. -/
theorem encodeAs_inherited (inherited : Inherited P) (made : MakesOnly config P)
    {type : CompleteType} (h : encodeAs config type value = .ok arg)
    (carried : ∀ given ∈ value.arguments, P given ∧ P (.variant given.content)) : P arg := by
  induction type using CompleteType.slots generalizing value arg with
  | basic type =>
    rcases encodeAs_basic_iff.1 h with ⟨rfl, -⟩ | ⟨atom, scalar, -, encoded, rfl⟩
    · exact (Value.arguments_arg.1 carried).1
    · exact made type atom scalar encoded
  | variant =>
    obtain ⟨given, rfl, rfl⟩ := encodeAs_variant_iff.1 h
    exact (Value.arguments_arg.1 carried).2
  | wildcard =>
    cases encodeAs_wildcard_iff.1 h
    exact (Value.arguments_arg.1 carried).1
  | dictionary key element ih =>
    rcases encodeAs_dictionary_iff.1 h with ⟨rfl, -⟩ | ⟨pairs, keyed, rfl, encoded, built⟩
    · exact (Value.arguments_arg.1 carried).1
    · have both := Value.arguments_map.1 carried
      refine buildDictionary_inherited inherited built (forall_right encoded ?_)
      intro pair member keyed entry
      obtain ⟨name, content, named, encoded, paired, -⟩ := encodeEntry_iff.1 entry
      obtain ⟨first, second⟩ := both pair member
      exact inherited.pair paired
        (encodeKey_inherited made named fun given present => (first given present).1)
        (ih encoded second)
  | array element other ih =>
    rcases (encodeAs_array_iff other).1 h with ⟨rfl, -⟩ | ⟨items, built, rfl, encoded, gathered⟩
    · exact (Value.arguments_arg.1 carried).1
    · have each := Value.arguments_seq.1 carried
      refine buildArray_inherited inherited gathered (forall_right encoded ?_)
      intro item member built encoded
      exact ih encoded (each item member)
  | struct types ih =>
    rcases encodeAs_struct_iff.1 h with ⟨rfl, -⟩ | ⟨items, built, rfl, -, encoded, gathered⟩
    · exact (Value.arguments_arg.1 carried).1
    · have each := Value.arguments_seq.1 carried
      refine inherited.members gathered (forall_right encoded ?_)
      rintro ⟨type, item⟩ member built encoded
      obtain ⟨listed, present⟩ := List.of_mem_zip member
      exact ih type listed encoded (each item present)
  | entry key element =>
    obtain ⟨rfl, -⟩ := encodeAs_entry_iff.1 h
    exact (Value.arguments_arg.1 carried).1

/-! ## Well-formedness -/

/-- What the encoder makes of well-formed parts is well formed. -/
theorem encodeAs_wellFormed {type : CompleteType} {value : Value} {arg : Argument}
    (h : encodeAs config type value = .ok arg) (formed : value.WellFormed) : arg.WellFormed := by
  refine encodeAs_inherited Argument.wellFormed_inherited
    (fun _ _ scalar _ => Argument.wellFormed_scalar scalar) h fun given member => ?_
  exact ⟨formed given member, Argument.wellFormed_variant_iff.2 (formed given member).content⟩

theorem encodeComplete_wellFormed {type : CompleteType} {value : Value} {arg : Argument}
    (h : encodeComplete config type value = .ok arg) (formed : value.WellFormed) :
    arg.WellFormed :=
  encodeAs_wellFormed (encodeComplete_iff.1 h).1 formed

end Encoding

variable {config : CodecConfig}

theorem encodeSignature_wellFormed {signature : Signature} {value : Value} {arg : Argument}
    (h : encodeSignature config signature value = .ok arg) (formed : value.WellFormed) :
    arg.WellFormed := by
  obtain ⟨type, -, encoded⟩ := encodeSignature_ok_iff.1 h
  exact Encoding.encodeComplete_wellFormed encoded formed

theorem encode_wellFormed {text : String} {value : Value} {arg : Argument}
    (h : encode config text value = .ok arg) (formed : value.WellFormed) : arg.WellFormed := by
  obtain ⟨type, -, encoded⟩ := encode_ok_iff.1 h
  exact Encoding.encodeComplete_wellFormed encoded formed

theorem encodeAll_wellFormed {text : String} {values : List Value} {args : List Argument}
    (h : encodeAll config text values = .ok args) (formed : ∀ value ∈ values, value.WellFormed) :
    ∀ arg ∈ args, arg.WellFormed := by
  obtain ⟨types, -, -, encoded⟩ := encodeAll_iff.1 h
  refine forall_right encoded ?_
  rintro ⟨type, value⟩ member arg encoded
  exact Encoding.encodeComplete_wellFormed encoded (formed value (List.of_mem_zip member).2)

theorem encodeInferred_wellFormed {values : List Value} {arg : Argument}
    (h : encodeInferred config values = .ok arg) (formed : ∀ value ∈ values, value.WellFormed) :
    arg.WellFormed := by
  rw [encodeInferred_eq] at h
  exact Encoding.encodeComplete_wellFormed h (Value.wellFormed_seq_iff.2 formed)

end MessageArgs
