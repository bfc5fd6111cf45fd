import MessageArgs.Argument.Basic

/-!
# Native values

What callers hand over to be encoded and get back from decoding. An `Atom` is a value without
parts; unlike a `Scalar` it does not say which of the three kinds of text it is, and it may be a
single, which is encoded as the double it widens to. Structs and arrays are sequences,
dictionaries are lists of pairs in a fixed order, and `Value.arg` carries an argument that is
already built.
-/

namespace MessageArgs

open Number (Double Single)

/-- A native value without parts. -/
inductive Atom
  | byte (n : UInt8)
  | bool (b : Bool)
  | int16 (n : Int16)
  | uint16 (n : UInt16)
  | int32 (n : Int32)
  | uint32 (n : UInt32)
  | int64 (n : Int64)
  | uint64 (n : UInt64)
  | single (x : Single)
  | double (x : Double)
  | string (s : String)
deriving DecidableEq, Repr

namespace Atom

/-- The word for the kind of an atom in messages. -/
def kind : Atom → String
  | byte _ => "byte"
  | bool _ => "bool"
  | int16 _ => "int16"
  | uint16 _ => "uint16"
  | int32 _ => "int32"
  | uint32 _ => "uint32"
  | int64 _ => "int64"
  | uint64 _ => "uint64"
  | single _ => "float"
  | double _ => "double"
  | string _ => "string"

/-- Equality of atoms, with floating-point numbers compared as numbers. -/
def same : Atom → Atom → Bool
  | single x, single y => x.same y
  | double x, double y => x.same y
  | a, b => a = b

end Atom

/-- A native value. -/
inductive Value
  | atom (value : Atom)
  | seq (items : List Value)
  | map (pairs : List (Value × Value))
  | arg (argument : Argument)
deriving Repr

namespace Value

/-- The word for the kind of a value in messages. -/
def kind : Value → String
  | atom value => value.kind
  | seq _ => "sequence"
  | map _ => "map"
  | arg _ => "argument"

/-- The text of a text value. -/
def asString? : Value → Option String
  | atom (.string s) => some s
  | _ => none

/-- The items of a sequence. -/
def asSeq? : Value → Option (List Value)
  | seq items => some items
  | _ => none

/-- The pairs of a map. -/
def asMap? : Value → Option (List (Value × Value))
  | map pairs => some pairs
  | _ => none

/-- The argument that a value carries. -/
def asArg? : Value → Option Argument
  | arg argument => some argument
  | _ => none

mutual

/-- Equality of values, with floating-point numbers compared as numbers. -/
def same : Value → Value → Bool
  | atom a, atom b => a.same b
  | seq as, seq bs => sameAll as bs
  | map as, map bs => samePairs as bs
  | arg a, arg b => a.same b
  | _, _ => false

/-- Equality of lists of values, item by item. -/
def sameAll : List Value → List Value → Bool
  | [], [] => true
  | a :: as, b :: bs => same a b && sameAll as bs
  | _, _ => false

/-- Equality of lists of pairs, pair by pair. -/
def samePairs : List (Value × Value) → List (Value × Value) → Bool
  | [], [] => true
  | (key, value) :: as, (key', value') :: bs =>
    same key key' && same value value' && samePairs as bs
  | _, _ => false

end

/-- The value of the first pair of a map with a given key. -/
def get? (key : Value) (value : Value) : Option Value :=
  value.asMap?.bind fun pairs => (pairs.find? fun pair => pair.1.same key).map (·.2)

end Value

/-- The native value of a scalar. -/
def Scalar.toAtom : Scalar → Atom
  | .byte n => .byte n
  | .bool b => .bool b
  | .int16 n => .int16 n
  | .uint16 n => .uint16 n
  | .int32 n => .int32 n
  | .uint32 n => .uint32 n
  | .int64 n => .int64 n
  | .uint64 n => .uint64 n
  | .double x => .double x
  | .string s => .string s
  | .objectPath s => .string s
  | .signature s => .string s.text

end MessageArgs
