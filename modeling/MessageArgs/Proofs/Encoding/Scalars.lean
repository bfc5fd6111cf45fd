import MessageArgs.Proofs.Argument.Nodes
import MessageArgs.Proofs.Encoding.Conforming

/-!
# Where the scalars of an encoded argument come from

A scalar of an encoded argument is made of an atom or stands in an argument that the value carries.
So what the encoder ensures of the scalars that it makes, and callers of those in the arguments
they carry, holds of every scalar of the result (`encodeAs_eachScalar`).
-/

namespace MessageArgs

namespace Argument

variable {P : Scalar → Prop}

theorem eachScalar_content_iff {arg : Argument} :
    arg.content.EachScalar P ↔ arg.EachScalar P := by
  cases arg with
  | variant content =>
    rw [eachScalar_variant]
    rfl
  | _ => rfl

theorem eachScalar_inherited : Inherited fun arg => arg.EachScalar P where
  items made each := by
    obtain ⟨signature, -, -, rfl⟩ := ofItems_iff.1 made
    exact eachScalar_array.2 each
  members made each := by
    obtain ⟨-, signature, -, rfl⟩ := ofMembers_iff.1 made
    exact eachScalar_struct.2 each
  pair made name content := by
    obtain ⟨signature, -, rfl⟩ := ofPair_iff.1 made
    exact eachScalar_entry.2 ⟨eachScalar_scalar.1 name, content⟩

end Argument

/-- A property of all scalars in the arguments that a value carries. -/
def Value.EachScalar (P : Scalar → Prop) (value : Value) : Prop :=
  ∀ given ∈ value.arguments, given.EachScalar P

namespace Encoding

variable {config : CodecConfig} {P : Scalar → Prop}

/-- What holds of the scalars that are made and of those that are carried holds of the result. -/
theorem encodeAs_eachScalar {type : CompleteType} {value : Value} {arg : Argument}
    (made : ∀ type atom scalar, encodeScalar config type (.atom atom) = .ok scalar → P scalar)
    (h : encodeAs config type value = .ok arg) (carried : value.EachScalar P) :
    arg.EachScalar P := by
  refine encodeAs_inherited Argument.eachScalar_inherited (fun type atom scalar encoded => ?_) h
    fun given member => ⟨carried given member, ?_⟩
  · exact Argument.eachScalar_scalar.2 (made type atom scalar encoded)
  · rw [Argument.eachScalar_variant, Argument.eachScalar_content_iff]
    exact carried given member

end Encoding

theorem encodeAll_eachScalar {config : CodecConfig} {P : Scalar → Prop} {text : String}
    {values : List Value} {args : List Argument}
    (made : ∀ type atom scalar,
      Encoding.encodeScalar config type (.atom atom) = .ok scalar → P scalar)
    (h : encodeAll config text values = .ok args) (carried : ∀ value ∈ values, value.EachScalar P) :
    ∀ arg ∈ args, arg.EachScalar P := by
  obtain ⟨types, -, -, encoded⟩ := encodeAll_iff.1 h
  refine forall_right encoded ?_
  rintro ⟨type, value⟩ member arg encoded
  exact Encoding.encodeAs_eachScalar made (Encoding.encodeComplete_iff.1 encoded).1
    (carried value (List.of_mem_zip member).2)

end MessageArgs
