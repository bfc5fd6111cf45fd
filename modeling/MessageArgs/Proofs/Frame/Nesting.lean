import MessageArgs.Frame.Form
import MessageArgs.Proofs.Argument.WellFormed
import MessageArgs.Proofs.Json.Documents

/-!
# How deep the text of an argument nests

A container adds one to the depth of an argument and more than that to its text: an array or a
struct three lists and objects, an entry two, a variant one. So the text of an argument nests up to
three times as deep as the argument and once more for the scalar in the middle (`nesting_le`), and
that of an envelope twice more.
-/

namespace MessageArgs

theorem nesting_labelled (label : String) (payload : Json) :
    (labelled label payload).nesting = payload.nesting + 1 := by
  simp [labelled, Json.nesting, Json.nestingOfFields]

theorem Scalar.nesting_toJson (value : Scalar) : value.toJson.nesting = 0 := by
  cases value <;> rfl

namespace Argument

@[simp]
theorem toJsonAll_eq (args : List Argument) : toJsonAll args = args.map toJson := by
  induction args with
  | nil => rfl
  | cons arg args ih => rw [toJsonAll, ih, List.map_cons]

variable {element signature : Signature} {args : List Argument}

theorem nesting_scalar (value : Scalar) : (scalar value).toJson.nesting = 1 := by
  rw [toJson, scalarToJson, nesting_labelled, Scalar.nesting_toJson]

theorem nesting_array : (array element signature args).toJson.nesting =
    (Json.list (toJsonAll args)).nesting + 2 := by
  rw [toJson, nesting_labelled]
  simp [Json.nesting, Json.nestingOfFields]

theorem nesting_struct : (struct signature args).toJson.nesting =
    (Json.list (toJsonAll args)).nesting + 2 := by
  rw [toJson, nesting_labelled]
  simp [Json.nesting, Json.nestingOfFields]

theorem nesting_entry {key : Scalar} {value : Argument} :
    (dictEntry signature key value).toJson.nesting =
      max (scalar key).toJson.nesting value.toJson.nesting + 2 := by
  simp [toJson, nesting_labelled, Json.nesting, Json.nestingOfFields]

theorem nesting_variant {content : Argument} :
    (variant content).toJson.nesting = content.toJson.nesting + 1 := by
  rw [toJson, nesting_labelled]

/-! ## Against the depth -/

theorem depth_le_depthOfAll {arg : Argument} (member : arg ∈ args) :
    arg.depth ≤ depthOfAll args := by
  induction args with
  | nil => cases member
  | cons first rest ih =>
    rw [depthOfAll]
    rcases List.mem_cons.1 member with rfl | inside
    · exact Nat.le_max_left _ _
    · exact Nat.le_trans (ih inside) (Nat.le_max_right _ _)

theorem nesting_list_le {limit : Nat} (each : ∀ arg ∈ args, arg.toJson.nesting ≤ limit) :
    (Json.list (toJsonAll args)).nesting ≤ limit + 1 := by
  rw [Json.nesting, Nat.succ_le_succ_iff, Json.nestingOfAll_le_iff, toJsonAll_eq,
    List.forall_mem_map]
  exact each

theorem nesting_le (arg : Argument) : arg.toJson.nesting ≤ 3 * arg.depth + 1 := by
  induction arg using Argument.induction with
  | scalar value => exact Nat.le_of_eq (nesting_scalar value)
  | array element signature items ih =>
    have inside := nesting_list_le fun item member => Nat.le_trans (ih item member)
      (Nat.succ_le_succ (Nat.mul_le_mul_left 3 (depth_le_depthOfAll member)))
    rw [nesting_array, depth]
    omega
  | struct signature members ih =>
    have inside := nesting_list_le fun member present => Nat.le_trans (ih member present)
      (Nat.succ_le_succ (Nat.mul_le_mul_left 3 (depth_le_depthOfAll present)))
    rw [nesting_struct, depth]
    omega
  | dictEntry signature key value ih =>
    rw [nesting_entry, nesting_scalar, depth]
    omega
  | variant content ih =>
    rw [nesting_variant, depth]
    omega

end Argument

namespace Envelope

theorem nesting_toJson (envelope : Envelope) : envelope.toJson.nesting =
    (Json.list (Argument.toJsonAll envelope.args)).nesting + 1 := by
  simp [toJson, Json.nesting, Json.nestingOfFields]

theorem nesting_le {envelope : Envelope} {depth : Nat}
    (each : ∀ arg ∈ envelope.args, arg.depth ≤ depth) :
    envelope.toJson.nesting ≤ 3 * depth + 3 := by
  have inside := Argument.nesting_list_le fun arg member => Nat.le_trans arg.nesting_le
    (Nat.succ_le_succ (Nat.mul_le_mul_left 3 (each arg member)))
  rw [nesting_toJson]
  omega

end Envelope

end MessageArgs
