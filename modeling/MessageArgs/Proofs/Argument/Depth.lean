import MessageArgs.Proofs.Argument.Nodes

/-!
# The depth of an argument

The containers around the deepest part of an argument are those of a path through its type, unless
some of them are variants, which the type does not show (`exists_path`). Types are limited in the
number of arrays and of structs on each path, so an argument without variants is at most as deep as
both limits together (`depth_le_limits`).
-/

namespace MessageArgs

namespace CompleteType

theorem mem_pathsOfAll {type : CompleteType} {types : List CompleteType} {path : List Nesting}
    (listed : type ∈ types) (member : path ∈ type.paths) : path ∈ pathsOfAll types := by
  induction types with
  | nil => cases listed
  | cons first rest ih =>
    rw [pathsOfAll, List.mem_append]
    rcases List.mem_cons.1 listed with rfl | inside
    · exact .inl member
    · exact .inr (ih inside)

/-- A path has one container for each level. -/
theorem length_path (path : List Nesting) :
    path.length = path.count .array + path.count .struct := by
  induction path with
  | nil => rfl
  | cons container path ih =>
    rw [List.length_cons, List.count_cons, List.count_cons, ih]
    cases container <;> simp <;> omega

/-- No path of an accepted type is longer than both limits together. -/
theorem length_path_le {grammar : Grammar} {type : CompleteType} (accepted : grammar.Accepts type)
    {path : List Nesting} (member : path ∈ type.paths) : path.length ≤ maxArrays + maxStructs := by
  have arrays := (nesting_le_iff .array type _).2 (accepted.1.2 .array) path member
  have structs := (nesting_le_iff .struct type _).2 (accepted.1.2 .struct) path member
  rw [length_path]
  exact Nat.add_le_add arrays structs

end CompleteType

namespace Argument

open Signature (ofType)

/-- An argument with no variant anywhere in it. -/
def VariantFree (arg : Argument) : Prop :=
  ∀ node ∈ arg.nodes true, node.tag ≠ .variant

variable {element signature : Signature} {args : List Argument}

theorem variantFree_array_iff :
    (array element signature args).VariantFree ↔ ∀ item ∈ args, item.VariantFree := by
  rw [VariantFree, nodes_array, and_iff_right (by simp [tag])]
  rfl

theorem variantFree_struct_iff :
    (struct signature args).VariantFree ↔ ∀ member ∈ args, member.VariantFree := by
  rw [VariantFree, nodes_struct, and_iff_right (by simp [tag])]
  rfl

theorem variantFree_entry_iff {key : Scalar} {value : Argument} :
    (dictEntry signature key value).VariantFree ↔ value.VariantFree := by
  rw [VariantFree, nodes_entry, and_iff_right (by simp [tag]), and_iff_right (by simp [tag])]
  rfl

theorem variantFree_scalar (value : Scalar) : (scalar value).VariantFree := by
  rw [VariantFree, nodes_scalar]
  simp [tag]

theorem not_variantFree_variant (content : Argument) : ¬ (variant content).VariantFree := by
  rw [VariantFree, nodes_variant]
  exact fun h => h.1 rfl

/-- Some argument in a list is as deep as the list. -/
theorem exists_depthOfAll (args : List Argument) :
    depthOfAll args = 0 ∨ ∃ arg ∈ args, depthOfAll args ≤ arg.depth := by
  induction args with
  | nil => exact .inl rfl
  | cons arg args ih =>
    right
    rw [depthOfAll]
    rcases ih with flat | ⟨deepest, member, deep⟩
    · exact ⟨arg, List.mem_cons_self, by omega⟩
    · rcases Nat.le_total (depthOfAll args) arg.depth with less | more
      · exact ⟨arg, List.mem_cons_self, by omega⟩
      · exact ⟨deepest, List.mem_cons_of_mem _ member, by omega⟩

/-- The deepest part of an argument lies behind the containers of a path through its type. -/
theorem exists_path {arg : Argument} {type : CompleteType} (formed : arg.WellFormed)
    (free : arg.VariantFree) (same : arg.signature = ofType type) :
    ∃ path ∈ type.paths, arg.depth ≤ path.length := by
  induction arg using Argument.induction generalizing type with
  | scalar value =>
    cases Signature.ofType_inj same
    exact ⟨[], List.mem_singleton.2 rfl, Nat.le_refl 0⟩
  | array element signature items ih =>
    obtain ⟨⟨inside, rfl, rfl, -⟩, uniform, all⟩ := wellFormed_array_iff.1 formed
    cases Signature.ofType_inj same
    rw [variantFree_array_iff] at free
    rw [CompleteType.paths, depth]
    rcases exists_depthOfAll items with flat | ⟨item, member, deep⟩
    · exact ⟨[.array], List.mem_cons_self, by rw [flat]; exact Nat.le_refl 1⟩
    · obtain ⟨path, listed, bound⟩ := ih item member (all item member) (free item member)
        (uniform item member)
      refine ⟨.array :: path, List.mem_cons_of_mem _ (List.mem_map_of_mem listed), ?_⟩
      rw [List.length_cons]
      omega
  | struct signature members ih =>
    obtain ⟨⟨types, typed, rfl, -⟩, all⟩ := wellFormed_struct_iff.1 formed
    cases Signature.ofType_inj same
    rw [variantFree_struct_iff] at free
    rw [CompleteType.paths, depth]
    rcases exists_depthOfAll members with flat | ⟨member, present, deep⟩
    · exact ⟨[.struct], List.mem_cons_self, by rw [flat]; exact Nat.le_refl 1⟩
    · have listed : member.signature ∈ types.map ofType := typed ▸ List.mem_map_of_mem present
      obtain ⟨type, listed, own⟩ := List.mem_map.1 listed
      obtain ⟨path, found, bound⟩ := ih member present (all member present) (free member present)
        own.symm
      refine ⟨.struct :: path, List.mem_cons_of_mem _
        (List.mem_map_of_mem (CompleteType.mem_pathsOfAll listed found)), ?_⟩
      rw [List.length_cons]
      omega
  | dictEntry signature key value ih =>
    obtain ⟨⟨inside, own, rfl, -⟩, all⟩ := wellFormed_entry_iff.1 formed
    cases Signature.ofType_inj same
    rw [variantFree_entry_iff] at free
    rw [CompleteType.paths, depth]
    obtain ⟨path, found, bound⟩ := ih all free own
    refine ⟨.struct :: path, List.mem_cons_of_mem _ (List.mem_map_of_mem found), ?_⟩
    rw [List.length_cons]
    omega
  | variant content => exact absurd free (not_variantFree_variant content)

/-- Without variants, the limits on types limit the depth. -/
theorem depth_le_limits {arg : Argument} (formed : arg.WellFormed) (free : arg.VariantFree) :
    arg.depth ≤ maxArrays + maxStructs := by
  obtain ⟨type, same, accepted, -⟩ := formed.typed
  obtain ⟨path, member, bound⟩ := exists_path formed free same
  exact Nat.le_trans bound (CompleteType.length_path_le accepted member)

end Argument

end MessageArgs
