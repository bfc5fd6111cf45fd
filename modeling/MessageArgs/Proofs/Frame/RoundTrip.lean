import MessageArgs.Proofs.Argument.Nodes
import MessageArgs.Proofs.Frame.Nesting
import MessageArgs.Proofs.Frame.WellFormed

/-!
# Arguments come back from frames

A well-formed argument whose doubles are reproduced by their texts (`Scalar.Reproduced`) is read out
of the frame that it is written to exactly if its payloads of type signature may be stored
(`Scalar.Storable`) and its text nests no deeper than readers follow; otherwise nothing comes back
(`Argument.read_written_iff`). The checked constructors are no obstacle: the argument is what they
make of its parts.

`pair_object`, `sole_object` and `labelled_object` say what the reader combinators make of records
as they are written, and `ReadExactly` is what the induction over arguments carries.
-/

namespace MessageArgs

/-- The number of a scalar, if it has one that is not an integer, is reproduced by its text. -/
def Scalar.Reproduced : Scalar → Prop
  | .double x => (Json.NumberValue.double x).Reproduced
  | _ => True

/-- A payload of type signature spells types that arguments may store. -/
def Scalar.Storable : Scalar → Prop
  | .signature s => ∃ types, Grammar.stored.read s.text = .ok types
  | _ => True

theorem Tag.ofLabel?_label (tag : Tag) : Tag.ofLabel? tag.label = some tag := by
  cases tag with
  | basic type => cases type <;> rfl
  | _ => rfl

namespace Reading

open Json (Node)

variable {α β σ : Type}

/-! ## Records as they are written -/

theorem pair_object {name name' : String} (different : name ≠ name') {first : Node → Reading α}
    {second : Node → Reading β} {finish : α → β → Reading σ} (a b : Node) :
    pair name name' first second finish (.object [(some name, a), (some name', b)] true) = (do
      let x ← first a
      let y ← second b
      finish x y) := by
  simp only [pair, record, fieldsOf, takeFields, if_pos, if_neg different.symm]
  cases first a with
  | error fault => rfl
  | ok x => cases second b <;> rfl

theorem sole_object {name : String} {read : Node → Reading α} {finish : α → Reading σ} (a : Node) :
    sole name read finish (.object [(some name, a)] true) = (do
      let x ← read a
      finish x) := by
  simp only [sole, record, fieldsOf, takeFields, if_pos]
  cases read a <;> rfl

/-- A label comes before its payload, so the payload is read by it. -/
theorem labelled_object {source : Source} {room : Nat}
    {read : Source → Tag → Node → Reading Argument} (tag : Tag) (payload : Node) :
    labelled source room read
      (.object [(some "type", .string (some tag.label)), (some "value", payload)] true) =
      read source tag payload := by
  have first : ∀ fields, labelStep source room read (.object fields true) .nothing "type"
      (.string (some tag.label)) = .ok (.label tag) := by
    intro fields
    show (require (Tag.ofLabel? tag.label)).map Labelling.label = _
    rw [Tag.ofLabel?_label]
    rfl
  have second : ∀ fields, labelStep source room read (.object fields true) (.label tag) "value"
      payload = (read source tag payload).map .done := fun _ => rfl
  simp only [labelled, record, fieldsOf, takeFields, first, second]
  cases read source tag payload <;> rfl

theorem items_list (read : Node → Reading α) (nodes : List Node) :
    items read (.list nodes true) = nodes.mapM read := by
  rw [items]
  cases nodes.mapM read <;> rfl

/-! ## Scalars -/

theorem number_node {n : Json.NumberValue} (h : n.Reproduced) :
    number (Json.node (.number n)) = .ok n := by
  rw [Json.node, number, h.read.2]
  rfl

theorem integer_node {n low high : Int} (h : (Json.NumberValue.integer n).Reproduced)
    (inside : low ≤ n ∧ n ≤ high) :
    integer low high (Json.node (.number (.integer n))) = .ok n := by
  rw [integer, number_node h]
  exact if_pos inside

theorem natural_node {n bits : Nat} (small : n < Nat.pow 2 bits) (wide : bits ≤ 64) :
    natural bits (Json.node (.number (.integer n))) = .ok n := by
  have widest : Nat.pow 2 bits ≤ Nat.pow 2 64 := Nat.pow_le_pow_right (by omega) wide
  have inside : (0 : Int) ≤ n ∧ (n : Int) ≤ Int.ofNat (Nat.pow 2 bits) - 1 := by
    have : (n : Int) < Int.ofNat (Nat.pow 2 bits) := Int.ofNat_lt.2 small
    omega
  rw [natural, integer_node (Json.reproduced_natural (by omega)) inside]
  rfl

theorem signed_node {n : Int} {bits : Nat} (low : -Int.ofNat (Nat.pow 2 (bits - 1)) ≤ n)
    (high : n < Int.ofNat (Nat.pow 2 (bits - 1))) (wide : bits ≤ 64) :
    signed bits (Json.node (.number (.integer n))) = .ok n := by
  have reproduced := Json.reproduced_signed low high (by omega)
  exact integer_node reproduced ⟨low, by omega⟩

/-- A scalar that is no signature comes back. -/
theorem scalar_node {value : Scalar} (h : value.Reproduced) (plain : value.type ≠ .signature) :
    scalar value.type value.toJson.node = .ok value := by
  cases value with
  | byte n =>
    rw [Scalar.type, Scalar.toJson, scalar, natural_node n.toNat_lt (by omega)]
    exact congrArg (fun n => Except.ok (Scalar.byte n)) (UInt8.ofNat_toNat)
  | bool b => rfl
  | int16 n =>
    rw [Scalar.type, Scalar.toJson, scalar, signed_node n.le_toInt n.toInt_lt (by omega)]
    exact congrArg (fun n => Except.ok (Scalar.int16 n)) (Int16.ofInt_toInt n)
  | uint16 n =>
    rw [Scalar.type, Scalar.toJson, scalar, natural_node n.toNat_lt (by omega)]
    exact congrArg (fun n => Except.ok (Scalar.uint16 n)) (UInt16.ofNat_toNat)
  | int32 n =>
    rw [Scalar.type, Scalar.toJson, scalar, signed_node n.le_toInt n.toInt_lt (by omega)]
    exact congrArg (fun n => Except.ok (Scalar.int32 n)) (Int32.ofInt_toInt n)
  | uint32 n =>
    rw [Scalar.type, Scalar.toJson, scalar, natural_node n.toNat_lt (by omega)]
    exact congrArg (fun n => Except.ok (Scalar.uint32 n)) (UInt32.ofNat_toNat)
  | int64 n =>
    rw [Scalar.type, Scalar.toJson, scalar, signed_node n.le_toInt n.toInt_lt (by omega)]
    exact congrArg (fun n => Except.ok (Scalar.int64 n)) (Int64.ofInt_toInt n)
  | uint64 n =>
    rw [Scalar.type, Scalar.toJson, scalar, natural_node n.toNat_lt (by omega)]
    exact congrArg (fun n => Except.ok (Scalar.uint64 n)) (UInt64.ofNat_toNat)
  | double x =>
    rw [Scalar.type, Scalar.toJson, scalar, double, number_node h]
    rfl
  | string s => rfl
  | objectPath s => rfl
  | signature s => exact absurd rfl plain

/-- A scalar comes back exactly if it may be stored. -/
theorem scalar_node_iff {value result : Scalar} (h : value.Reproduced) :
    scalar value.type value.toJson.node = .ok result ↔ result = value ∧ value.Storable := by
  by_cases plain : value.type = .signature
  · cases value <;> cases plain
    rename_i s
    have read : scalar .signature (Json.node (.string s.text)) =
        ((Grammar.stored.parse s.text).mapError ReadFault.signature).map Scalar.signature := rfl
    rw [Scalar.type, Scalar.toJson, read, map_ok_iff]
    simp only [mapError_ok_iff, Grammar.parse_iff]
    constructor
    · rintro ⟨_, ⟨rfl, spelled⟩, rfl⟩
      exact ⟨rfl, spelled⟩
    · rintro ⟨rfl, spelled⟩
      exact ⟨s, ⟨rfl, spelled⟩, rfl⟩
  · have storable : value.Storable := by
      cases value with
      | signature => exact absurd rfl plain
      | _ => trivial
    rw [scalar_node h plain, Except.ok.injEq, and_iff_left storable]
    exact eq_comm

/-! ## Arguments -/

/-- An argument comes back exactly if there is room for its lists and objects and its payloads may
be stored. -/
def ReadExactly (arg : Argument) : Prop :=
  ∀ room result, argument .text room arg.toJson.node = .ok result ↔
    result = arg ∧ arg.toJson.nesting ≤ room ∧ arg.EachScalar Scalar.Storable

/-- An argument with its label is read as its payload by the label, if it may open at all. -/
theorem argument_node_iff (tag : Tag) {content : Json} {room : Nat} {result : Argument} :
    argument .text room (MessageArgs.labelled tag.label content).node = .ok result ↔
      ∃ less, room = less + 1 ∧
        payload (fun node => arrayPayload .text less node)
          (fun node => structPayload .text less node) (fun node => entryPayload .text less node)
          (fun node => (argument .text less node).map .variant) tag content.node = .ok result := by
  cases room with
  | zero => simp [argument, malformed]
  | succ room =>
    rw [argument]
    simp only [MessageArgs.labelled, Json.node, Json.fieldNodes, labelled_object]
    simp

/-- Several arguments come back exactly if each of them does. -/
theorem arguments_node_iff {args results : List Argument} {room : Nat}
    (each : ∀ arg ∈ args, ReadExactly arg) :
    arguments .text room (Json.list (Argument.toJsonAll args)).node = .ok results ↔
      results = args ∧ (Json.list (Argument.toJsonAll args)).nesting ≤ room ∧
        ∀ arg ∈ args, arg.EachScalar Scalar.Storable := by
  cases room with
  | zero => simp [arguments, malformed, Json.nesting]
  | succ room =>
    have read : arguments .text (room + 1) (Json.list (Argument.toJsonAll args)).node =
        args.mapM fun arg => argument .text room arg.toJson.node := by
      rw [arguments, Json.node, items_list, Json.nodes_eq, Argument.toJsonAll_eq, List.map_map,
        List.mapM_map]
      rfl
    have exact : ∀ arg ∈ args, ∀ result, argument .text room arg.toJson.node = .ok result ↔
        (arg.toJson.nesting ≤ room ∧ arg.EachScalar Scalar.Storable) ∧ result = id arg := by
      intro arg member result
      rw [each arg member room result, and_comm]
      rfl
    rw [read, mapM_ok_iff, forall₂_ok_iff exact, List.map_id, and_comm, Json.nesting,
      Nat.succ_le_succ_iff, Json.nestingOfAll_le_iff, Argument.toJsonAll_eq, List.forall_mem_map]
    refine and_congr_right fun _ => ⟨fun both => ?_, fun both arg member => ?_⟩
    · exact ⟨fun arg member => (both arg member).1, fun arg member => (both arg member).2⟩
    · exact ⟨both.1 arg member, both.2 arg member⟩

theorem readExactly_scalar {value : Scalar} (h : value.Reproduced) :
    ReadExactly (.scalar value) := by
  intro room result
  rw [Argument.nesting_scalar, Argument.eachScalar_scalar, Argument.toJson, Argument.scalarToJson]
  refine (argument_node_iff (.basic value.type)).trans ?_
  simp only [payload, map_ok_iff, scalar_node_iff h]
  constructor
  · rintro ⟨less, rfl, _, ⟨rfl, storable⟩, rfl⟩
    exact ⟨rfl, by omega, storable⟩
  · rintro ⟨rfl, enough, storable⟩
    exact ⟨room - 1, by omega, value, ⟨rfl, storable⟩, rfl⟩

/-- The signature of the items of a well-formed array is read as it was. -/
theorem signature_node {element signature : Signature} {items : List Argument}
    (formed : (Argument.array element signature items).WellFormed) :
    Reading.signature (.string (some element.text)) = .ok element := by
  obtain ⟨⟨type, rfl, -, accepted⟩, -, -⟩ := Argument.wellFormed_array_iff.1 formed
  have slots : Grammar.stored.Accepts type := Grammar.accepts_element accepted id rfl
  exact mapError_ok_iff.2 (Grammar.parse_text_iff.2 ⟨rfl, slots⟩)

theorem arrayPayload_node_iff {element : Signature} {items : Json} {room : Nat} {result : Argument}
    (named : Reading.signature (.string (some element.text)) = .ok element) :
    arrayPayload .text room
      (Json.object [("element", .string element.text), ("items", items)]).node = .ok result ↔
      ∃ less, room = less + 1 ∧ ∃ args, arguments .text less items.node = .ok args ∧
        Argument.ofItems element args = .ok result := by
  cases room with
  | zero => simp [arrayPayload, malformed]
  | succ room =>
    have read : arrayPayload .text (room + 1)
        (Json.object [("element", .string element.text), ("items", items)]).node = (do
          let element ← Reading.signature (.string (some element.text))
          let args ← arguments .text room items.node
          (Argument.ofItems element args).mapError .build) := pair_object (by decide) _ _
    simp [read, named]

theorem readExactly_array {element signature : Signature} {items : List Argument}
    (formed : (Argument.array element signature items).WellFormed)
    (each : ∀ item ∈ items, ReadExactly item) :
    ReadExactly (.array element signature items) := by
  intro room result
  rw [Argument.nesting_array, Argument.eachScalar_array, Argument.toJson]
  refine (argument_node_iff .array).trans ?_
  simp only [payload, arrayPayload_node_iff (signature_node formed), arguments_node_iff each]
  constructor
  · rintro ⟨_, rfl, less, rfl, _, ⟨rfl, enough, storable⟩, made⟩
    rw [formed.ofItems_eq, Except.ok.injEq] at made
    exact ⟨made.symm, by omega, storable⟩
  · rintro ⟨rfl, enough, storable⟩
    exact ⟨room - 1, by omega, room - 2, by omega, items, ⟨rfl, by omega, storable⟩,
      formed.ofItems_eq⟩

theorem structPayload_node_iff {members : Json} {room : Nat} {result : Argument} :
    structPayload .text room (Json.object [("members", members)]).node = .ok result ↔
      ∃ less, room = less + 1 ∧ ∃ args, arguments .text less members.node = .ok args ∧
        Argument.ofMembers args = .ok result := by
  cases room with
  | zero => simp [structPayload, malformed]
  | succ room =>
    have read : structPayload .text (room + 1) (Json.object [("members", members)]).node = (do
        let args ← arguments .text room members.node
        (Argument.ofMembers args).mapError .build) := sole_object _
    simp [read]

theorem readExactly_struct {signature : Signature} {members : List Argument}
    (formed : (Argument.struct signature members).WellFormed)
    (each : ∀ member ∈ members, ReadExactly member) :
    ReadExactly (.struct signature members) := by
  intro room result
  rw [Argument.nesting_struct, Argument.eachScalar_struct, Argument.toJson]
  refine (argument_node_iff .struct).trans ?_
  simp only [payload, structPayload_node_iff, arguments_node_iff each]
  constructor
  · rintro ⟨_, rfl, less, rfl, _, ⟨rfl, enough, storable⟩, made⟩
    rw [formed.ofMembers_eq, Except.ok.injEq] at made
    exact ⟨made.symm, by omega, storable⟩
  · rintro ⟨rfl, enough, storable⟩
    exact ⟨room - 1, by omega, room - 2, by omega, members, ⟨rfl, by omega, storable⟩,
      formed.ofMembers_eq⟩

theorem entryPayload_node_iff {key value : Json} {room : Nat} {result : Argument} :
    entryPayload .text room (Json.object [("key", key), ("value", value)]).node = .ok result ↔
      ∃ less, room = less + 1 ∧ ∃ name content, argument .text less key.node = .ok name ∧
        argument .text less value.node = .ok content ∧
        Argument.ofEntry name content = .ok result := by
  cases room with
  | zero => simp [entryPayload, malformed]
  | succ room =>
    have read : entryPayload .text (room + 1)
        (Json.object [("key", key), ("value", value)]).node = (do
          let name ← argument .text room key.node
          let content ← argument .text room value.node
          (Argument.ofEntry name content).mapError .build) := pair_object (by decide) _ _
    simp [read]

theorem readExactly_entry {signature : Signature} {key : Scalar} {value : Argument}
    (formed : (Argument.dictEntry signature key value).WellFormed)
    (name : ReadExactly (.scalar key)) (content : ReadExactly value) :
    ReadExactly (.dictEntry signature key value) := by
  intro room result
  have made : Argument.ofEntry (.scalar key) value = .ok (.dictEntry signature key value) :=
    formed.ofPair_eq
  have written : (Argument.dictEntry signature key value).toJson =
      MessageArgs.labelled Tag.dictEntry.label
        (.object [("key", (Argument.scalar key).toJson), ("value", value.toJson)]) := rfl
  have plain : key.Storable ↔ (Argument.scalar key).EachScalar Scalar.Storable :=
    Argument.eachScalar_scalar.symm
  rw [Argument.nesting_entry, Argument.eachScalar_entry, plain, written]
  refine (argument_node_iff .dictEntry).trans ?_
  simp only [payload, entryPayload_node_iff]
  constructor
  · rintro ⟨_, rfl, less, rfl, _, _, first, second, built⟩
    obtain ⟨rfl, enough, storable⟩ := (name _ _).1 first
    obtain ⟨rfl, enough', storable'⟩ := (content _ _).1 second
    rw [made, Except.ok.injEq] at built
    exact ⟨built.symm, by omega, storable, storable'⟩
  · rintro ⟨rfl, enough, storable, storable'⟩
    exact ⟨room - 1, by omega, room - 2, by omega, .scalar key, value,
      (name _ _).2 ⟨rfl, by omega, storable⟩, (content _ _).2 ⟨rfl, by omega, storable'⟩, made⟩

theorem readExactly_variant {content : Argument} (h : ReadExactly content) :
    ReadExactly (.variant content) := by
  intro room result
  rw [Argument.nesting_variant, Argument.eachScalar_variant, Argument.toJson]
  refine (argument_node_iff .variant).trans ?_
  simp only [payload, map_ok_iff]
  constructor
  · rintro ⟨less, rfl, _, read, rfl⟩
    obtain ⟨rfl, enough, storable⟩ := (h less _).1 read
    exact ⟨rfl, by omega, storable⟩
  · rintro ⟨rfl, enough, storable⟩
    exact ⟨room - 1, by omega, content, (h _ _).2 ⟨rfl, by omega, storable⟩, rfl⟩

theorem readExactly {arg : Argument} (formed : arg.WellFormed)
    (reproduced : arg.EachScalar Scalar.Reproduced) : ReadExactly arg := by
  induction arg using Argument.induction with
  | scalar value => exact readExactly_scalar (Argument.eachScalar_scalar.1 reproduced)
  | array element signature items ih =>
    have inside := (Argument.wellFormed_array_iff.1 formed).2.2
    rw [Argument.eachScalar_array] at reproduced
    exact readExactly_array formed fun item member =>
      ih item member (inside item member) (reproduced item member)
  | struct signature members ih =>
    have inside := (Argument.wellFormed_struct_iff.1 formed).2
    rw [Argument.eachScalar_struct] at reproduced
    exact readExactly_struct formed fun member present =>
      ih member present (inside member present) (reproduced member present)
  | dictEntry signature key value ih =>
    have inside := (Argument.wellFormed_entry_iff.1 formed).2
    rw [Argument.eachScalar_entry] at reproduced
    exact readExactly_entry formed (readExactly_scalar reproduced.1) (ih inside reproduced.2)
  | variant content ih =>
    rw [Argument.eachScalar_variant] at reproduced
    exact readExactly_variant (ih (Argument.wellFormed_variant_iff.1 formed) reproduced)

/-! ## Envelopes -/

theorem envelope_object {room : Nat} (seq member args : Node) :
    envelope room (.object [(some "seq", seq), (some "member", member), (some "args", args)] true) =
      (do
        let n ← natural 64 seq
        let name ← string member
        let items ← arguments .text (room - 1) args
        pure ⟨UInt64.ofNat n, name, items⟩) := by
  simp only [envelope, record, fieldsOf, takeFields, if_pos, fillOnce]
  cases natural 64 seq with
  | error fault => rfl
  | ok n =>
    cases string member with
    | error fault => rfl
    | ok name => cases arguments .text (room - 1) args <;> rfl

/-- An envelope comes back exactly if its arguments do. -/
theorem envelope_node_iff {sent result : Envelope} {room : Nat}
    (each : ∀ arg ∈ sent.args, ReadExactly arg) :
    envelope room sent.toJson.node = .ok result ↔ result = sent ∧ sent.toJson.nesting ≤ room ∧
      ∀ arg ∈ sent.args, arg.EachScalar Scalar.Storable := by
  have read : envelope room sent.toJson.node = (do
      let n ← natural 64 (Json.node (.number (.integer sent.seq.toNat)))
      let name ← string (.string (some sent.member))
      let items ← arguments .text (room - 1) (Json.list (Argument.toJsonAll sent.args)).node
      pure ⟨UInt64.ofNat n, name, items⟩) := envelope_object _ _ _
  have opens : 0 < (Json.list (Argument.toJsonAll sent.args)).nesting := Nat.succ_pos _
  rw [read, natural_node sent.seq.toNat_lt (by omega), Envelope.nesting_toJson]
  simp only [bind_ok_iff, string, pure_ok_iff, Except.ok.injEq, arguments_node_iff each,
    exists_eq_left', UInt64.ofNat_toNat]
  constructor
  · rintro ⟨_, ⟨rfl, enough, storable⟩, rfl⟩
    exact ⟨rfl, by omega, storable⟩
  · rintro ⟨rfl, enough, storable⟩
    exact ⟨_, ⟨rfl, by omega, storable⟩, rfl⟩

end Reading

/-! ## Frames -/

@[simp]
theorem reproduced_labelled {label : String} {payload : Json} :
    (labelled label payload).Reproduced ↔ payload.Reproduced := by
  simp [labelled, Json.Reproduced, Json.FieldsReproduced]

/-- All numbers but doubles are reproduced in any case. -/
theorem Scalar.Reproduced.toJson {value : Scalar} (h : value.Reproduced) :
    value.toJson.Reproduced := by
  cases value with
  | byte n => exact Json.reproduced_natural (Nat.lt_trans n.toNat_lt (by decide))
  | uint16 n => exact Json.reproduced_natural (Nat.lt_trans n.toNat_lt (by decide))
  | uint32 n => exact Json.reproduced_natural (Nat.lt_trans n.toNat_lt (by decide))
  | uint64 n => exact Json.reproduced_natural n.toNat_lt
  | int16 n => exact Json.reproduced_signed n.le_toInt n.toInt_lt (by decide)
  | int32 n => exact Json.reproduced_signed n.le_toInt n.toInt_lt (by decide)
  | int64 n => exact Json.reproduced_signed n.le_toInt n.toInt_lt (by decide)
  | double x => exact h
  | _ => trivial

theorem Argument.EachScalar.toJson {arg : Argument} (h : arg.EachScalar Scalar.Reproduced) :
    arg.toJson.Reproduced := by
  induction arg using Argument.induction with
  | scalar value =>
    simpa [Argument.toJson, scalarToJson] using (eachScalar_scalar.1 h).toJson
  | array element signature items ih =>
    have inside := eachScalar_array.1 h
    simpa [Argument.toJson, Json.Reproduced, Json.FieldsReproduced] using
      fun item member => ih item member (inside item member)
  | struct signature members ih =>
    have inside := eachScalar_struct.1 h
    simpa [Argument.toJson, Json.Reproduced, Json.FieldsReproduced] using
      fun member present => ih member present (inside member present)
  | dictEntry signature key value ih =>
    obtain ⟨name, inside⟩ := eachScalar_entry.1 h
    simpa [Argument.toJson, scalarToJson, Json.Reproduced, Json.FieldsReproduced] using
      ⟨name.toJson, ih inside⟩
  | variant content ih =>
    simpa [Argument.toJson] using ih (eachScalar_variant.1 h)

theorem Envelope.toJson_reproduced {envelope : Envelope}
    (h : ∀ arg ∈ envelope.args, arg.EachScalar Scalar.Reproduced) :
    envelope.toJson.Reproduced := by
  simpa [Envelope.toJson, Json.Reproduced, Json.FieldsReproduced] using
    ⟨Json.reproduced_natural envelope.seq.toNat_lt, fun arg member => (h arg member).toJson⟩

/-- What is read out of a frame is what is read where its value is written. -/
theorem readFrame_toFrame {α : Type} {json : Json} (h : json.Reproduced)
    (read : Json.Node → Reading α) :
    readFrame read json.toFrame = (read json.node).mapError .decodeFailed := by
  rw [readFrame, Json.toFrame, Json.readDocument_toFrame h]
  dsimp only
  cases read json.node <;> rfl

/-- An argument comes back from its frame exactly if its payloads may be stored and readers follow
its text. Nothing else comes back. -/
theorem Argument.read_written_iff {arg result : Argument} (formed : arg.WellFormed)
    (reproduced : arg.EachScalar Scalar.Reproduced) :
    Argument.ofFrame arg.toJson.toFrame = .ok result ↔ result = arg ∧
      arg.toJson.nesting ≤ Json.maxNesting ∧ arg.EachScalar Scalar.Storable := by
  rw [Argument.ofFrame, readFrame_toFrame reproduced.toJson, mapError_ok_iff]
  exact Reading.readExactly formed reproduced _ _

theorem Envelope.read_written_iff {envelope result : Envelope}
    (formed : ∀ arg ∈ envelope.args, arg.WellFormed)
    (reproduced : ∀ arg ∈ envelope.args, arg.EachScalar Scalar.Reproduced) :
    Envelope.ofFrame envelope.toJson.toFrame = .ok result ↔ result = envelope ∧
      envelope.toJson.nesting ≤ Json.maxNesting ∧
      ∀ arg ∈ envelope.args, arg.EachScalar Scalar.Storable := by
  rw [Envelope.ofFrame, readFrame_toFrame (toJson_reproduced reproduced), mapError_ok_iff]
  exact Reading.envelope_node_iff fun arg member =>
    Reading.readExactly (formed arg member) (reproduced arg member)

/-- Arguments and envelopes come back from their frames as they were: bare entries, empty arrays
and nested variants, with all signatures that they store, and any text, number and member. -/
theorem ofFrame_toFrame :
    (∀ arg : Argument, arg.WellFormed → arg.EachScalar Scalar.Reproduced →
      arg.EachScalar Scalar.Storable → arg.toJson.nesting ≤ Json.maxNesting →
      Argument.ofFrame arg.toJson.toFrame = .ok arg) ∧
    ∀ envelope : Envelope, (∀ arg ∈ envelope.args, arg.WellFormed ∧
        arg.EachScalar Scalar.Reproduced ∧ arg.EachScalar Scalar.Storable) →
      envelope.toJson.nesting ≤ Json.maxNesting →
      Envelope.ofFrame envelope.toJson.toFrame = .ok envelope := by
  constructor
  · intro arg formed reproduced storable shallow
    exact (Argument.read_written_iff formed reproduced).2 ⟨rfl, shallow, storable⟩
  · intro envelope each shallow
    refine (Envelope.read_written_iff (fun arg member => (each arg member).1)
      fun arg member => (each arg member).2.1).2 ⟨rfl, shallow, ?_⟩
    exact fun arg member => (each arg member).2.2

/-- A bare entry, an empty array of entries, variants around a double, the signature of an entry
and a text that is escaped in part. -/
def Argument.assortment : List Argument :=
  [.byteEntry "a" 1,
    .array ⟨"\x7bsy\x7d"⟩ ⟨"a\x7bsy\x7d"⟩ [],
    .variant (.variant (.scalar (.double ⟨0x3FF8000000000000⟩))),
    .scalar (.signature ⟨"\x7bsy\x7d"⟩),
    .scalar (.string "\"é\x01\n😀\\")]

/-- The greatest number and a name with a line break around them. -/
def Envelope.assortment : Envelope :=
  ⟨0xFFFFFFFFFFFFFFFF, "Reset\nall", Argument.assortment⟩

theorem Argument.assortment_each : ∀ arg ∈ assortment, arg.WellFormed ∧
    arg.EachScalar Scalar.Reproduced ∧ arg.EachScalar Scalar.Storable := by
  have empty : (Argument.array ⟨"\x7bsy\x7d"⟩ ⟨"a\x7bsy\x7d"⟩ []).WellFormed := by
    have single : Grammar.stored.read "a\x7bsy\x7d" =
        .ok [.array (.entry .string (.basic .byte))] := rfl
    rw [WellFormed, allWellFormed_iff]
    exact ⟨by decide, ⟨_, single⟩, by simp, by simp⟩
  have half : (Scalar.double ⟨0x3FF8000000000000⟩).Reproduced :=
    ⟨⟨false, [1], [5], none⟩, by decide +kernel, by decide +kernel⟩
  have entry : Grammar.stored.read "\x7bsy\x7d" = .ok [.entry .string (.basic .byte)] := rfl
  have bare := byteEntry_wellFormed "a" 1
  rw [byteEntry] at bare
  simpa [assortment, byteEntry, bare, empty, entry, Scalar.Reproduced, Scalar.Storable] using half

theorem ofFrame_toFrame_assortment :
    (∀ arg ∈ Argument.assortment, arg.WellFormed ∧ arg.EachScalar Scalar.Reproduced ∧
      arg.EachScalar Scalar.Storable ∧ arg.toJson.nesting ≤ Json.maxNesting) ∧
    Envelope.assortment.toJson.nesting ≤ Json.maxNesting ∧
    (∀ arg ∈ Argument.assortment, Argument.ofFrame arg.toJson.toFrame = .ok arg) ∧
    Envelope.ofFrame Envelope.assortment.toJson.toFrame = .ok Envelope.assortment := by
  have each := Argument.assortment_each
  have shallow : ∀ arg ∈ Argument.assortment, arg.toJson.nesting ≤ Json.maxNesting := by decide
  have shallow' : Envelope.assortment.toJson.nesting ≤ Json.maxNesting := by decide
  refine ⟨fun arg member => ?_, shallow', fun arg member => ?_, ?_⟩
  · obtain ⟨formed, reproduced, storable⟩ := each arg member
    exact ⟨formed, reproduced, storable, shallow arg member⟩
  · obtain ⟨formed, reproduced, storable⟩ := each arg member
    exact ofFrame_toFrame.1 arg formed reproduced storable (shallow arg member)
  · exact ofFrame_toFrame.2 _ each shallow'

end MessageArgs
