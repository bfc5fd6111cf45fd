import MessageArgs.Proofs.Argument.Depth
import MessageArgs.Proofs.Encoding.WellFormed

/-!
# How deep encoded values are

Only the arguments that a value carries bring variants in, so a value that carries none becomes an
argument without variants (`encodeAs_variantFree`), which the limits on types keep from being deep
(`encodeAs_depth_le`).
-/

namespace MessageArgs

/-- A value that carries no argument. -/
def Value.Plain (value : Value) : Prop :=
  ∀ given ∈ value.arguments, False

namespace Value

theorem plain_atom (atom : Atom) : (Value.atom atom).Plain :=
  fun _ => nofun

theorem plain_seq_iff {items : List Value} : (seq items).Plain ↔ ∀ item ∈ items, item.Plain :=
  arguments_seq

theorem plain_map_iff {pairs : List (Value × Value)} :
    (map pairs).Plain ↔ ∀ pair ∈ pairs, pair.1.Plain ∧ pair.2.Plain :=
  arguments_map

theorem Plain.wellFormed {value : Value} (plain : value.Plain) : value.WellFormed :=
  fun given member => (plain given member).elim

end Value

theorem Argument.variantFree_inherited : Argument.Inherited Argument.VariantFree where
  items made each := by
    obtain ⟨signature, -, -, rfl⟩ := Argument.ofItems_iff.1 made
    exact Argument.variantFree_array_iff.2 each
  members made each := by
    obtain ⟨-, signature, -, rfl⟩ := Argument.ofMembers_iff.1 made
    exact Argument.variantFree_struct_iff.2 each
  pair made _ content := by
    obtain ⟨signature, -, rfl⟩ := Argument.ofPair_iff.1 made
    exact Argument.variantFree_entry_iff.2 content

namespace Encoding

variable {config : CodecConfig} {type : CompleteType} {value : Value} {arg : Argument}

/-- Without arguments in the value, there are no variants in the result. -/
theorem encodeAs_variantFree (h : encodeAs config type value = .ok arg) (plain : value.Plain) :
    arg.VariantFree :=
  encodeAs_inherited Argument.variantFree_inherited
    (fun _ _ scalar _ => Argument.variantFree_scalar scalar) h
    fun given member => (plain given member).elim

/-- The limits on types limit the depth of what is encoded without arguments. -/
theorem encodeAs_depth_le (h : encodeAs config type value = .ok arg) (plain : value.Plain) :
    arg.depth ≤ maxArrays + maxStructs :=
  Argument.depth_le_limits (encodeAs_wellFormed h plain.wellFormed) (encodeAs_variantFree h plain)

end Encoding

end MessageArgs
