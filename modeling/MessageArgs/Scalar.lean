import MessageArgs.Number.Layout
import MessageArgs.Signature.Basic

/-!
# Scalars

A scalar is a value of a basic type. `text` is how it stands in XML. `same` is equality as a reader
of numbers understands it, and differs from equality of the trees only on doubles. `fingerprint`
names a dictionary key: scalars with different fingerprints are different keys.
-/

namespace MessageArgs

open Number (Double)

/-- A value of a basic type. -/
inductive Scalar
  | byte (n : UInt8)
  | bool (b : Bool)
  | int16 (n : Int16)
  | uint16 (n : UInt16)
  | int32 (n : Int32)
  | uint32 (n : UInt32)
  | int64 (n : Int64)
  | uint64 (n : UInt64)
  | double (x : Double)
  | string (s : String)
  | objectPath (s : String)
  | signature (s : Signature)
deriving DecidableEq, Repr

namespace Scalar

/-- The type of a scalar. -/
def type : Scalar → BasicType
  | byte _ => .byte
  | bool _ => .bool
  | int16 _ => .int16
  | uint16 _ => .uint16
  | int32 _ => .int32
  | uint32 _ => .uint32
  | int64 _ => .int64
  | uint64 _ => .uint64
  | double _ => .double
  | string _ => .string
  | objectPath _ => .objectPath
  | signature _ => .signature

/-- Doubles in renderings: all digits positional, whole numbers without a point. -/
def doubleLayout : Number.Layout where
  positional := none
  keepsPoint := false
  plus := ""
  tie := .up

/-- The text of a scalar. -/
def text : Scalar → String
  | byte n => toString n.toNat
  | bool b => if b then "1" else "0"
  | int16 n => toString n.toInt
  | uint16 n => toString n.toNat
  | int32 n => toString n.toInt
  | uint32 n => toString n.toNat
  | int64 n => toString n.toInt
  | uint64 n => toString n.toNat
  | double x => doubleLayout.write x
  | string s => s
  | objectPath s => s
  | signature s => s.text

/-- Equality of scalars, with doubles compared as numbers. -/
def same : Scalar → Scalar → Bool
  | double x, double y => x.same y
  | a, b => a = b

/-- The name of a scalar as a dictionary key. Doubles are told apart by their bits. -/
def fingerprint : Scalar → String
  | double x => "d:" ++ toString x.bits.toNat
  | s => s.type.code.toString ++ ":" ++ s.text

end Scalar

end MessageArgs
