import MessageArgs.Command.Error
import MessageArgs.Encoding
import MessageArgs.Json.Canonical
import MessageArgs.Json.Document

/-!
# JSON as native values

On the command line values are given as plain JSON, and the signature says what it stands for. An
array or struct is a list and a dictionary an object; keys that are not text are written as JSON
within their strings. A variant is an object with its signature and its value, and its content is
encoded at once.
-/

namespace MessageArgs.Command

/-- The failure of a JSON value of the wrong kind. -/
def wrongKind {α : Type} (wanted : Wanted) (found : Json) : Except Failure α :=
  .error (.wrongKind wanted found)

/-- A natural number of at most 64 bits. -/
def unsigned (json : Json) : Except Failure Nat :=
  match json with
  | .number (.integer n) => if 0 ≤ n then .ok n.toNat else wrongKind .unsigned json
  | _ => wrongKind .unsigned json

/-- A signed integer of at most 64 bits. -/
def integer (json : Json) : Except Failure Int :=
  match json with
  | .number (.integer n) => if n < Int.ofNat (Nat.pow 2 63) then .ok n else wrongKind .integer json
  | _ => wrongKind .integer json

/-- A natural number that fits into some bits. -/
def fitUnsigned (bits : Nat) (json : Json) : Except Failure Nat :=
  match unsigned json with
  | .error failure => .error failure
  | .ok n => if n < Nat.pow 2 bits then .ok n else .error .outOfRange

/-- A signed integer that fits into some bits. -/
def fitSigned (bits : Nat) (json : Json) : Except Failure Int :=
  match integer json with
  | .error failure => .error failure
  | .ok n =>
    let bound := Int.ofNat (Nat.pow 2 (bits - 1))
    if -bound ≤ n ∧ n < bound then .ok n else .error .outOfRange

/-- A truth value. -/
def bool (json : Json) : Except Failure Bool :=
  match json with
  | .bool b => .ok b
  | _ => wrongKind .bool json

/-- A number as a double. -/
def double (json : Json) : Except Failure Number.Double :=
  match json with
  | .number (.integer n) => .ok (Number.Double.ofInt n)
  | .number (.double x) => .ok x
  | _ => wrongKind .number json

/-- A text. -/
def string (json : Json) : Except Failure String :=
  match json with
  | .string s => .ok s
  | _ => wrongKind .string json

/-- The atom that a JSON value stands for in a slot of a basic type. -/
def atomOf (type : BasicType) (json : Json) : Except Failure Atom :=
  match type with
  | .byte => (fitUnsigned 8 json).map fun n => .byte (UInt8.ofNat n)
  | .bool => (bool json).map .bool
  | .int16 => (fitSigned 16 json).map fun n => .int16 (Int16.ofInt n)
  | .uint16 => (fitUnsigned 16 json).map fun n => .uint16 (UInt16.ofNat n)
  | .int32 => (fitSigned 32 json).map fun n => .int32 (Int32.ofInt n)
  | .uint32 => (fitUnsigned 32 json).map fun n => .uint32 (UInt32.ofNat n)
  | .int64 => (fitSigned 64 json).map fun n => .int64 (Int64.ofInt n)
  | .uint64 => (fitUnsigned 64 json).map fun n => .uint64 (UInt64.ofNat n)
  | .double => (double json).map .double
  | .string | .objectPath | .signature => (string json).map .string

/-- The key that the name of a field stands for. -/
def keyOf (type : BasicType) (name : String) : Except Failure Value :=
  if type.isText then .ok (.atom (.string name))
  else
    match Json.parse? name with
    | none => .error (.keyMalformed name type)
    | some json => (atomOf type json.canonical).map .atom

/-- What stands for a slot of any type that it is given. -/
abbrev Slot := CompleteType → Except Failure Value

/-- What stands in a slot when it is neither a list nor an object. -/
def leafSlot (json : Json) : Slot
  | .basic type => (atomOf type json).map .atom
  | .variant => .error .variantForm
  | .array (.entry key element) =>
    .error (.needsObject (CompleteType.array (.entry key element)).text)
  | .array element => .error (.needsList (CompleteType.array element).text)
  | .struct members => .error (.needsList (CompleteType.struct members).text)
  | type => .error (.loosePart type.text)

/-- The values of some slots for as many types. -/
def fillSlots : List CompleteType → List Slot → Except Failure (List Value)
  | type :: types, slot :: slots => do
    let first ← slot type
    let rest ← fillSlots types slots
    return first :: rest
  | _, _ => .ok []

/-- What stands in a slot when it is a list. -/
def listSlot (json : Json) (slots : List Slot) : Slot
  | .array (.entry key element) =>
    .error (.needsObject (CompleteType.array (.entry key element)).text)
  | .array element => (slots.mapM fun (slot : Slot) => slot element).map .seq
  | .struct members =>
    if members.length ≠ slots.length then
      .error
        (.memberCount (CompleteType.struct members).text members.length slots.length)
    else (fillSlots members slots).map .seq
  | type => leafSlot json type

/-- The text of a variant's signature among the fields of an object. -/
def signatureField (fields : List (String × Json)) : Except Failure String :=
  match fields.lookup "signature" with
  | some (.string text) => .ok text
  | _ => .error .variantForm

/-- The variant that an object stands for. -/
def variantOf (config : CodecConfig) (fields : List (String × Json))
    (slots : List (String × Slot)) : Except Failure Value := do
  let text ← signatureField fields
  let signature ← (Signature.parseSingle text).mapError .signature
  let type ← signature.single.mapError .signature
  let content ← ((slots.lookup "value").getD (leafSlot .null)) type
  let argument ← (encodeSignature config signature content).mapError .codec
  return .arg argument

/-- What stands in a slot when it is an object. -/
def objectSlot (config : CodecConfig) (json : Json) (fields : List (String × Json))
    (slots : List (String × Slot)) : Slot
  | .variant => variantOf config fields slots
  | .array (.entry key element) => do
    let pairs ← slots.mapM fun slot => do
      let name ← keyOf key slot.1
      let content ← slot.2 element
      return (name, content)
    return .map pairs
  | type => leafSlot json type

mutual

/-- The native value that a JSON value stands for in a slot of some type. -/
def valueOf (config : CodecConfig) : Json → Slot
  | .list items => listSlot (.list items) (slotsOf config items)
  | .object fields => objectSlot config (.object fields) fields (namedSlotsOf config fields)
  | .null => leafSlot .null
  | .bool b => leafSlot (.bool b)
  | .number n => leafSlot (.number n)
  | .string s => leafSlot (.string s)

/-- What the items of a list stand for. -/
def slotsOf (config : CodecConfig) : List Json → List Slot
  | [] => []
  | item :: items => valueOf config item :: slotsOf config items

/-- What the fields of an object stand for. -/
def namedSlotsOf (config : CodecConfig) : List (String × Json) → List (String × Slot)
  | [] => []
  | (name, value) :: fields => (name, valueOf config value) :: namedSlotsOf config fields

end

end MessageArgs.Command
