import Std.Data.String.ToInt
import Std.Data.String.ToNat
import MessageArgs.Proofs.Signature.Composition
import MessageArgs.Scalar

/-!
# Fingerprints

A fingerprint names one scalar (`fingerprint_inj`): it begins with the code of the type, and what
follows tells the scalars of that type apart. This is the text of the scalar, or the bits of a
double.
-/

namespace MessageArgs.Scalar

/-- What tells a scalar apart from the others of its type. -/
def mark : Scalar → String
  | double x => toString x.bits.toNat
  | s => s.text

theorem fingerprint_eq (scalar : Scalar) :
    scalar.fingerprint = scalar.type.code.toString ++ ":" ++ scalar.mark := by
  cases scalar <;> rfl

theorem mark_inj {a b : Scalar} (type : a.type = b.type) (same : a.mark = b.mark) : a = b := by
  cases a <;> cases b <;> cases type
  case byte.byte => exact congrArg byte (UInt8.toNat_inj.1 (Nat.repr_injective same))
  case bool.bool a b => cases a <;> cases b <;> first | rfl | exact absurd same (by decide)
  case int16.int16 => exact congrArg int16 (Int16.toInt_inj.1 (Int.repr_injective same))
  case uint16.uint16 => exact congrArg uint16 (UInt16.toNat_inj.1 (Nat.repr_injective same))
  case int32.int32 => exact congrArg int32 (Int32.toInt_inj.1 (Int.repr_injective same))
  case uint32.uint32 => exact congrArg uint32 (UInt32.toNat_inj.1 (Nat.repr_injective same))
  case int64.int64 => exact congrArg int64 (Int64.toInt_inj.1 (Int.repr_injective same))
  case uint64.uint64 => exact congrArg uint64 (UInt64.toNat_inj.1 (Nat.repr_injective same))
  case double.double =>
    have bits := UInt64.toNat_inj.1 (Nat.repr_injective same)
    exact congrArg (fun bits => double ⟨bits⟩) bits
  case string.string => exact congrArg string same
  case objectPath.objectPath => exact congrArg objectPath same
  case signature.signature => exact congrArg (fun text => signature ⟨text⟩) same

@[simp]
theorem fingerprint_inj {a b : Scalar} : a.fingerprint = b.fingerprint ↔ a = b := by
  constructor
  · intro same
    rw [fingerprint_eq, fingerprint_eq] at same
    have letters := congrArg String.toList same
    simp only [String.toList_append, Char.toString_eq_singleton, String.toList_singleton,
      List.cons_append, List.nil_append, List.cons.injEq] at letters
    obtain ⟨code, rest⟩ := letters
    have tags : Tag.basic a.type = .basic b.type := Tag.code_inj code
    exact mark_inj (Tag.basic.inj tags) (String.toList_inj.1 (List.append_cancel_left rest))
  · intro same
    rw [same]

end MessageArgs.Scalar
