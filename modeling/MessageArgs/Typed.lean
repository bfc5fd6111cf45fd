import MessageArgs.Decoding
import MessageArgs.Value.Order

/-!
# Typed arguments

A `NativeType` is a type of the caller's own program that travels under one fixed signature:
numbers, texts, arguments, lists, maps and tuples of these. Its `model` says what its members are,
how they become native values and how native values are taken for them. `Argument.ofTyped` and
`Argument.toTyped` join this with encoding and decoding.

A map is kept as the list of its pairs in the strict order of their keys; when a map is read, the
last of several equal keys wins. Its value lists the pairs in that order too, but a map that has no
order may list them in another one; `Argument.ofShown` takes any value.
-/

namespace MessageArgs

open Number (Double Single)

/-- How the members of a type travel. -/
structure Model where
  Carrier : Type
  /-- The text of the signature. -/
  text : String
  toValue : Carrier → Value
  ofValue : Value → Except CodecError Carrier

/-- How several members travel one after the other. -/
structure Members where
  Carrier : Type
  count : Nat
  /-- The texts of the signatures, one after the other. -/
  text : String
  toValues : Carrier → List Value
  ofValues : List Value → Except CodecError Carrier

namespace Model

/-- A type whose members are atoms of one kind. -/
def ofAtom {α : Type} (type : BasicType) (toAtom : α → Atom) (ofAtom? : Atom → Option α) :
    Model where
  Carrier := α
  text := type.code.toString
  toValue x := .atom (toAtom x)
  ofValue value :=
    match value with
    | .atom atom =>
      match ofAtom? atom with
      | some x => .ok x
      | none => .error (.typeMismatch type.code.toString atom.kind)
    | other => .error (.typeMismatch type.code.toString other.kind)

/-- Arguments travel as variants. -/
def argument : Model where
  Carrier := Argument
  text := Signature.variant.text
  toValue := .arg
  ofValue value :=
    match value with
    | .arg argument => .ok argument
    | other => .error (.typeMismatch Signature.variant.text other.kind)

/-- Lists travel as arrays. -/
def list (item : Model) : Model where
  Carrier := List item.Carrier
  text := "a" ++ item.text
  toValue xs := .seq (xs.map item.toValue)
  ofValue value :=
    match value with
    | .seq values => values.mapM item.ofValue
    | other => .error (.typeMismatch ("a" ++ item.text) other.kind)

section Map

variable (key value : Model)

/-- The order of the keys of a map. -/
def compareKeys (a b : key.Carrier) : Ordering :=
  (key.toValue a).compare (key.toValue b)

/-- The pairs of a map after a pair has been put in; an equal key gives way. -/
def insertPair (pair : key.Carrier × value.Carrier) :
    List (key.Carrier × value.Carrier) → List (key.Carrier × value.Carrier)
  | [] => [pair]
  | old :: rest =>
    match key.compareKeys pair.1 old.1 with
    | .lt => pair :: old :: rest
    | .eq => pair :: rest
    | .gt => old :: insertPair pair rest

/-- The pairs of the map that some pairs make, one after the other. -/
def mapOfPairs (pairs : List (key.Carrier × value.Carrier)) :
    List (key.Carrier × value.Carrier) :=
  pairs.foldl (fun map pair => insertPair key value pair map) []

/-- Reads a pair of a map. -/
def readPair (pair : Value × Value) : Except CodecError (key.Carrier × value.Carrier) := do
  let name ← key.ofValue pair.1
  let content ← value.ofValue pair.2
  return (name, content)

/-- Maps travel as dictionaries. -/
def map : Model where
  Carrier := List (key.Carrier × value.Carrier)
  text := "a\x7b" ++ key.text ++ value.text ++ "\x7d"
  toValue pairs := .map (pairs.map fun pair => (key.toValue pair.1, value.toValue pair.2))
  ofValue v :=
    match v with
    | .map pairs => (pairs.mapM (readPair key value)).map (mapOfPairs key value)
    | other =>
      .error (.typeMismatch ("a\x7b" ++ key.text ++ value.text ++ "\x7d") other.kind)

end Map

/-- Tuples travel as structs. -/
def tuple (members : Members) : Model where
  Carrier := members.Carrier
  text := "(" ++ members.text ++ ")"
  toValue x := .seq (members.toValues x)
  ofValue value :=
    match value with
    | .seq values =>
      if values.length ≠ members.count then
        .error (.shapeMismatch
          (.tupleCount ("(" ++ members.text ++ ")") members.count values.length))
      else members.ofValues values
    | other => .error (.typeMismatch ("(" ++ members.text ++ ")") other.kind)

end Model

namespace Members

/-- No members. -/
def nil : Members where
  Carrier := Unit
  count := 0
  text := ""
  toValues _ := []
  ofValues _ := .ok ()

/-- One more member in front. -/
def cons (first : Model) (rest : Members) : Members where
  Carrier := first.Carrier × rest.Carrier
  count := rest.count + 1
  text := first.text ++ rest.text
  toValues x := first.toValue x.1 :: rest.toValues x.2
  ofValues values :=
    match values with
    | [] => .error (.shapeMismatch (.memberCount (rest.count + 1) 0))
    | value :: values => do
      let x ← first.ofValue value
      let xs ← rest.ofValues values
      return (x, xs)

end Members

/-- A type of the caller's own program. -/
inductive NativeType
  | byte
  | bool
  | int16
  | uint16
  | int32
  | uint32
  | int64
  | uint64
  /-- A single is encoded as the double it widens to, and read by rounding. -/
  | single
  | double
  | string
  | argument
  | list (item : NativeType)
  | map (key value : NativeType)
  | tuple1 (first : NativeType)
  | tuple2 (first second : NativeType)
  | tuple3 (first second third : NativeType)
  | tuple4 (first second third fourth : NativeType)
deriving DecidableEq, Repr

namespace NativeType

/-- How a type travels. -/
def model : NativeType → Model
  | byte => .ofAtom .byte .byte fun | .byte n => some n | _ => none
  | bool => .ofAtom .bool .bool fun | .bool b => some b | _ => none
  | int16 => .ofAtom .int16 .int16 fun | .int16 n => some n | _ => none
  | uint16 => .ofAtom .uint16 .uint16 fun | .uint16 n => some n | _ => none
  | int32 => .ofAtom .int32 .int32 fun | .int32 n => some n | _ => none
  | uint32 => .ofAtom .uint32 .uint32 fun | .uint32 n => some n | _ => none
  | int64 => .ofAtom .int64 .int64 fun | .int64 n => some n | _ => none
  | uint64 => .ofAtom .uint64 .uint64 fun | .uint64 n => some n | _ => none
  | single =>
    .ofAtom .double .single fun | .single x => some x | .double x => some x.narrow | _ => none
  | double => .ofAtom .double .double fun | .double x => some x | _ => none
  | string => .ofAtom .string .string fun | .string s => some s | _ => none
  | argument => .argument
  | list item => .list item.model
  | map key value => .map key.model value.model
  | tuple1 a => .tuple (.cons a.model .nil)
  | tuple2 a b => .tuple (.cons a.model (.cons b.model .nil))
  | tuple3 a b c => .tuple (.cons a.model (.cons b.model (.cons c.model .nil)))
  | tuple4 a b c d =>
    .tuple (.cons a.model (.cons b.model (.cons c.model (.cons d.model .nil))))

/-- The text of the signature of a type. -/
def signature (type : NativeType) : String :=
  type.model.text

end NativeType

namespace Argument

/-- The argument of a member of a type that a value stands for. -/
def ofShown (type : NativeType) (value : Value) : Except CodecError Argument := do
  let signature ← (Signature.parseSingle type.signature).mapError .signature
  encodeSignature .standard signature value

/-- The argument of a member of a type. -/
def ofTyped (type : NativeType) (x : type.model.Carrier) : Except CodecError Argument :=
  ofShown type (type.model.toValue x)

/-- The member of a type that an argument stands for. -/
def toTyped (type : NativeType) (argument : Argument) : Except CodecError type.model.Carrier := do
  let signature ← (Signature.parseSingle type.signature).mapError .signature
  let value ← decodeSignature .standard signature argument
  type.model.ofValue value

end Argument

end MessageArgs
