import MessageArgs.Command.Input
import MessageArgs.Proofs.Encoding.Faults

/-!
# JSON under a type

What a JSON value stands for, told by the type of the slot. There is one equation for each kind of
type (`valueOf_basic` to `valueOf_struct`), and from each of them follows what a success comes to
(`valueOf_basic_ok_iff` to `valueOf_struct_ok_iff`). Further proofs use these instead of the
definition, which goes by the JSON value. `fieldsOf`, `itemsOf` and `signatureOf` are what a slot
asks of the value that it is given.

The native value that comes out has the form of the type (`valueOf_fits`).
-/

namespace MessageArgs

/-- A field of an object; other values have none. -/
def Json.field? (name : String) : Json → Option Json
  | .object fields => fields.lookup name
  | _ => none

theorem Json.sizeOf_item_lt {items : List Json} {item : Json} (member : item ∈ items) :
    sizeOf item < sizeOf (Json.list items) := by
  have smaller := List.sizeOf_lt_of_mem member
  rw [list.sizeOf_spec]
  omega

theorem Json.sizeOf_field_lt {fields : List (String × Json)} {field : String × Json}
    (member : field ∈ fields) : sizeOf field.2 < sizeOf (Json.object fields) := by
  have smaller := List.sizeOf_lt_of_mem member
  obtain ⟨name, value⟩ := field
  rw [Prod.mk.sizeOf_spec] at smaller
  show sizeOf value < sizeOf (object fields)
  rw [object.sizeOf_spec]
  omega

theorem Json.sizeOf_lt_of_field? {name : String} {json value : Json}
    (h : json.field? name = some value) : sizeOf value < sizeOf json := by
  cases json with
  | object fields =>
    obtain ⟨before, after, rfl, -⟩ := List.lookup_eq_some_iff.1 h
    have listed : (name, value) ∈ before ++ (name, value) :: after := by simp
    exact sizeOf_field_lt listed
  | _ => cases h

namespace Command

variable {config : CodecConfig}

/-! ## What a slot asks for -/

/-- The fields of a value in the place of a dictionary. -/
def fieldsOf (text : String) : Json → Except Failure (List (String × Json))
  | .object fields => .ok fields
  | _ => .error (.needsObject text)

/-- The items of a value in the place of an array or struct. -/
def itemsOf (text : String) : Json → Except Failure (List Json)
  | .list items => .ok items
  | _ => .error (.needsList text)

/-- The text of the signature of a value in the place of a variant. -/
def signatureOf (json : Json) : Except Failure String :=
  match json.field? "signature" with
  | some (.string text) => .ok text
  | _ => .error .variantForm

/-- The value of a variant, which counts as null if it is missing. -/
def contentOf (json : Json) : Json :=
  (json.field? "value").getD .null

@[simp]
theorem fieldsOf_ok_iff {text : String} {json : Json} {fields : List (String × Json)} :
    fieldsOf text json = .ok fields ↔ json = .object fields := by
  cases json <;> simp [fieldsOf]

@[simp]
theorem itemsOf_ok_iff {text : String} {json : Json} {items : List Json} :
    itemsOf text json = .ok items ↔ json = .list items := by
  cases json <;> simp [itemsOf]

theorem signatureOf_ok_iff {json : Json} {text : String} :
    signatureOf json = .ok text ↔ json.field? "signature" = some (.string text) := by
  rw [signatureOf]
  split
  · rename_i found
    simp [found]
  · rename_i other
    simp only [reduceCtorEq, false_iff]
    exact other text

/-- What a variant holds is smaller than the variant. -/
theorem sizeOf_contentOf_lt {json : Json} {text : String} (h : signatureOf json = .ok text) :
    sizeOf (contentOf json) < sizeOf json := by
  have smaller := Json.sizeOf_lt_of_field? (signatureOf_ok_iff.1 h)
  cases found : json.field? "value" with
  | some value =>
    rw [contentOf, found]
    exact Json.sizeOf_lt_of_field? found
  | none =>
    rw [contentOf, found]
    simp only [Option.getD_none, Json.null.sizeOf_spec, Json.string.sizeOf_spec] at smaller ⊢
    omega

theorem sizeOf_field_lt {text : String} {json : Json} {fields : List (String × Json)}
    {field : String × Json} (h : fieldsOf text json = .ok fields) (member : field ∈ fields) :
    sizeOf field.2 < sizeOf json := by
  cases fieldsOf_ok_iff.1 h
  exact Json.sizeOf_field_lt member

theorem sizeOf_item_lt {text : String} {json item : Json} {items : List Json}
    (h : itemsOf text json = .ok items) (member : item ∈ items) : sizeOf item < sizeOf json := by
  cases itemsOf_ok_iff.1 h
  exact Json.sizeOf_item_lt member

/-- The argument that a JSON value stands for under the text of a signature. -/
def encodeJson (config : CodecConfig) (text : String) (json : Json) : Except Failure Argument := do
  let signature ← (Signature.parseSingle text).mapError .signature
  let type ← signature.single.mapError .signature
  let native ← valueOf config json type
  (encodeSignature config signature native).mapError .codec

/-! ## One equation for each kind of type -/

theorem slotsOf_eq (config : CodecConfig) (items : List Json) :
    slotsOf config items = items.map (valueOf config) := by
  induction items with
  | nil => rfl
  | cons item items ih => rw [slotsOf, ih, List.map_cons]

theorem namedSlotsOf_eq (config : CodecConfig) (fields : List (String × Json)) :
    namedSlotsOf config fields = fields.map fun field => (field.1, valueOf config field.2) := by
  induction fields with
  | nil => rfl
  | cons field fields ih => rw [namedSlotsOf, ih, List.map_cons]

theorem fillSlots_eq (types : List CompleteType) (items : List Json) :
    fillSlots types (slotsOf config items) =
      (types.zip items).mapM fun slot => valueOf config slot.2 slot.1 := by
  induction types generalizing items with
  | nil => rfl
  | cons type types ih =>
    cases items with
    | nil => rfl
    | cons item items =>
      rw [slotsOf, fillSlots, ih, List.zip_cons_cons, List.mapM_cons]

theorem lookup_namedSlotsOf (name : String) (fields : List (String × Json)) :
    (namedSlotsOf config fields).lookup name = (fields.lookup name).map (valueOf config) := by
  rw [namedSlotsOf_eq]
  induction fields with
  | nil => rfl
  | cons field fields ih =>
    rw [List.map_cons, List.lookup_cons, List.lookup_cons]
    split
    · rfl
    · exact ih

theorem valueOf_basic (json : Json) (type : BasicType) :
    valueOf config json (.basic type) = (atomOf type json).map .atom := by
  cases json <;> rfl

theorem valueOf_basic_ok_iff {json : Json} {type : BasicType} {value : Value} :
    valueOf config json (.basic type) = .ok value ↔
      ∃ atom, atomOf type json = .ok atom ∧ value = .atom atom := by
  simp [valueOf_basic, eq_comm (a := value)]

theorem valueOf_variant (json : Json) :
    valueOf config json .variant = (do
      let text ← signatureOf json
      let signature ← (Signature.parseSingle text).mapError .signature
      let type ← signature.single.mapError .signature
      let content ← valueOf config (contentOf json) type
      let argument ← (encodeSignature config signature content).mapError .codec
      return .arg argument) := by
  cases json with
  | object fields =>
    have slot : ((namedSlotsOf config fields).lookup "value").getD (leafSlot .null) =
        valueOf config (contentOf (.object fields)) := by
      rw [lookup_namedSlotsOf, contentOf, Json.field?]
      cases fields.lookup "value" <;> rfl
    show variantOf config fields (namedSlotsOf config fields) = _
    rw [variantOf, slot]
    rfl
  | _ => rfl

theorem valueOf_variant_ok_iff {json : Json} {value : Value} :
    valueOf config json .variant = .ok value ↔ ∃ text content, signatureOf json = .ok text ∧
      encodeJson config text (contentOf json) = .ok content ∧ value = .arg content := by
  have rule : valueOf config json .variant = (do
      let text ← signatureOf json
      let content ← encodeJson config text (contentOf json)
      return .arg content) := by
    rw [valueOf_variant]
    simp only [encodeJson, bind_assoc]
  simp [rule, eq_comm (a := value)]

theorem valueOf_dictionary (json : Json) (key : BasicType) (element : CompleteType) :
    valueOf config json (.array (.entry key element)) = (do
      let fields ← fieldsOf (CompleteType.array (.entry key element)).text json
      let pairs ← fields.mapM fun field => do
        let name ← keyOf key field.1
        let content ← valueOf config field.2 element
        return (name, content)
      return .map pairs) := by
  cases json with
  | object fields =>
    show objectSlot config (.object fields) fields (namedSlotsOf config fields)
      (.array (.entry key element)) = _
    rw [objectSlot, namedSlotsOf_eq, List.mapM_map]
    rfl
  | _ => rfl

theorem valueOf_dictionary_ok_iff {json : Json} {key : BasicType} {element : CompleteType}
    {value : Value} : valueOf config json (.array (.entry key element)) = .ok value ↔
      ∃ fields pairs, json = .object fields ∧
        List.Forall₂ (fun field pair => keyOf key field.1 = .ok pair.1 ∧
          valueOf config field.2 element = .ok pair.2) fields pairs ∧ value = .map pairs := by
  simp [valueOf_dictionary, Prod.ext_iff, eq_comm (a := value)]

theorem valueOf_array (json : Json) {element : CompleteType} (other : element.tag ≠ .dictEntry) :
    valueOf config json (.array element) = (do
      let items ← itemsOf (CompleteType.array element).text json
      let values ← items.mapM fun item => valueOf config item element
      return .seq values) := by
  cases json with
  | list items =>
    have rule : valueOf config (.list items) (.array element) =
        ((slotsOf config items).mapM fun (slot : Slot) => slot element).map .seq := by
      cases element with
      | entry => exact absurd rfl other
      | _ => rfl
    rw [rule, slotsOf_eq, List.mapM_map]
    rfl
  | _ =>
    cases element with
    | entry => exact absurd rfl other
    | _ => rfl

theorem valueOf_array_ok_iff {json : Json} {element : CompleteType} {value : Value}
    (other : element.tag ≠ .dictEntry) : valueOf config json (.array element) = .ok value ↔
      ∃ items values, json = .list items ∧
        List.Forall₂ (fun item value => valueOf config item element = .ok value) items values ∧
        value = .seq values := by
  simp [valueOf_array json other, eq_comm (a := value)]

theorem valueOf_struct (json : Json) (types : List CompleteType) :
    valueOf config json (.struct types) = (do
      let items ← itemsOf (CompleteType.struct types).text json
      if types.length ≠ items.length then
        .error (.memberCount (CompleteType.struct types).text types.length items.length)
      else do
        let values ← (types.zip items).mapM fun slot => valueOf config slot.2 slot.1
        return .seq values) := by
  cases json with
  | list items =>
    show listSlot (.list items) (slotsOf config items) (.struct types) = _
    rw [listSlot, fillSlots_eq, slotsOf_eq, List.length_map]
    rfl
  | _ => rfl

theorem valueOf_struct_ok_iff {json : Json} {types : List CompleteType} {value : Value} :
    valueOf config json (.struct types) = .ok value ↔
      ∃ items values, json = .list items ∧ types.length = items.length ∧
        List.Forall₂ (fun slot value => valueOf config slot.2 slot.1 = .ok value)
          (types.zip items) values ∧ value = .seq values := by
  rw [valueOf_struct, bind_ok_iff]
  simp only [itemsOf_ok_iff]
  refine exists_congr fun items => ?_
  by_cases arity : types.length = items.length
  · simp [arity, eq_comm (a := value)]
  · simp [arity]

/-! ## The form of the result -/

theorem atomOf_suits {type : BasicType} {json : Json} {atom : Atom}
    (h : atomOf type json = .ok atom) : Encoding.Suits type atom := by
  cases type <;> obtain ⟨_, -, rfl⟩ := map_ok_iff.1 h <;> trivial

theorem keyOf_fits {type : BasicType} {name : String} {value : Value}
    (h : keyOf type name = .ok value) : Encoding.Fits (.basic type) value := by
  rw [keyOf] at h
  split at h
  · rename_i text
    cases h
    refine .atom ?_
    cases type <;> trivial
  · split at h
    · cases h
    · obtain ⟨atom, read, rfl⟩ := map_ok_iff.1 h
      exact .atom (atomOf_suits read)

/-- What a JSON value stands for has the form of the type. What is in a variant is encoded at once,
so no induction hypothesis is needed for it. -/
theorem valueOf_fits {type : CompleteType} {json : Json} {value : Value}
    (h : valueOf config json type = .ok value) : Encoding.Fits type value := by
  induction type using CompleteType.slots generalizing json value with
  | basic type =>
    obtain ⟨atom, read, rfl⟩ := valueOf_basic_ok_iff.1 h
    exact .atom (atomOf_suits read)
  | variant =>
    obtain ⟨text, argument, -, -, rfl⟩ := valueOf_variant_ok_iff.1 h
    exact .arg argument
  | wildcard => cases json <;> cases h
  | dictionary key element ih =>
    obtain ⟨fields, pairs, -, read, rfl⟩ := valueOf_dictionary_ok_iff.1 h
    exact .map (forall_right read fun field _ pair both => keyOf_fits both.1)
      (forall_right read fun field _ pair both => ih both.2)
  | array element other ih =>
    obtain ⟨items, values, -, read, rfl⟩ := (valueOf_array_ok_iff other).1 h
    exact .seq other (forall_right read fun item _ value filled => ih filled)
  | struct types ih =>
    obtain ⟨items, values, -, arity, read, rfl⟩ := valueOf_struct_ok_iff.1 h
    obtain ⟨same, fitting⟩ := forall₂_zip (f := fun _ => ())
      (S := fun slot _ => Encoding.Fits slot.1 slot.2 ∧ True) arity read
      fun slot member value filled => ⟨ih slot.1 (List.of_mem_zip member).1 filled, trivial⟩
    exact .struct same ((List.forall₂_and_left _ _).1 fitting).1
  | entry key element => cases json <;> cases h

end Command

end MessageArgs
