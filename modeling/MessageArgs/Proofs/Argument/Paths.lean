import Mathlib.Algebra.GroupWithZero.Nat
import MessageArgs.Proofs.Argument.Nodes

/-!
# Paths into an argument

A path leads from an argument to one of its nodes, one container at a time: to an item or member by
its index, to the value of a dictionary by the fingerprint of its key, to the content of a variant
by its signature (`part?`, `at?`). Keys and entries are passed over.

`layers` counts the variants on all levels. It goes by the parts of each container
(`layers_array` to `layers_variant`).
-/

namespace MessageArgs.Argument

/-- How a path goes on inside a container. -/
inductive Step
  | item (index : Nat)
  | value (name : String)
  | content (text : String)
deriving DecidableEq, Repr

/-- The value of an entry, if its key has the fingerprint asked for. -/
def valueUnder? (name : String) : Argument → Option Argument
  | dictEntry _ key value => if key.fingerprint = name then some value else none
  | _ => none

/-- The part of a container that a step leads to. -/
def part? : Step → Argument → Option Argument
  | .item index, array _ _ items => items[index]?
  | .item index, struct _ members => members[index]?
  | .value name, array _ _ items => items.findSome? (valueUnder? name)
  | .content text, variant content => if content.signature.text = text then some content else none
  | _, _ => none

/-- The node that a path leads to. -/
def at? : List Step → Argument → Option Argument
  | [], arg => some arg
  | step :: path, arg => (arg.part? step).bind (at? path)

theorem mem_nodes_self (arg : Argument) : arg ∈ arg.nodes true := by
  cases arg <;> exact List.mem_cons_self

/-- The nodes of a part are nodes of the container. -/
theorem nodes_subset_of_part? {step : Step} {arg part : Argument} (h : arg.part? step = some part) :
    part.nodes true ⊆ arg.nodes true := by
  cases arg with
  | scalar value => cases step <;> cases h
  | array element signature items =>
    rw [nodes]
    refine List.subset_cons_of_subset _ ?_
    cases step with
    | item index => exact nodes_subset_nodesOfAll (List.mem_of_getElem? h)
    | value name =>
      obtain ⟨entry, member, found⟩ := List.exists_of_findSome?_eq_some h
      cases entry with
      | dictEntry signature key value =>
        obtain ⟨-, ⟨⟩⟩ := Option.ite_none_right_eq_some.1 found
        refine List.Subset.trans ?_ (nodes_subset_nodesOfAll member)
        rw [nodes]
        exact List.subset_cons_of_subset _ (List.subset_cons_self _ _)
      | _ => cases found
    | content text => cases h
  | struct signature members =>
    rw [nodes]
    refine List.subset_cons_of_subset _ ?_
    cases step with
    | item index => exact nodes_subset_nodesOfAll (List.mem_of_getElem? h)
    | _ => cases h
  | dictEntry signature key value => cases step <;> cases h
  | variant content =>
    cases step with
    | content text =>
      obtain ⟨-, ⟨⟩⟩ := Option.ite_none_right_eq_some.1 h
      rw [nodes, if_pos rfl]
      exact List.subset_cons_self _ _
    | _ => cases h

theorem valueUnder?_of_ne {name name' : String} {entry : Argument}
    (key : entry.keyName? = some name') (different : name' ≠ name) :
    valueUnder? name entry = none := by
  cases entry with
  | dictEntry signature key value =>
    cases key
    exact if_neg different
  | _ => cases key

/-- If all entries are tagged with the fingerprints of their keys and no tag comes twice, a value is
found under its tag. -/
theorem findSome?_valueUnder? {entries : List (String × Argument)} {entry : String × Argument}
    {value : Argument} (keys : ∀ entry ∈ entries, entry.2.keyName? = some entry.1)
    (distinct : (entries.map Prod.fst).Nodup) (member : entry ∈ entries)
    (found : valueUnder? entry.1 entry.2 = some value) :
    (entries.map Prod.snd).findSome? (valueUnder? entry.1) = some value := by
  induction entries with
  | nil => cases member
  | cons first rest ih =>
    rw [List.forall_mem_cons] at keys
    rw [List.map_cons, List.nodup_cons] at distinct
    rw [List.map_cons, List.findSome?_cons]
    rcases List.mem_cons.1 member with rfl | later
    · rw [found]
    · have different : first.1 ≠ entry.1 := by
        intro same
        exact distinct.1 (same ▸ List.mem_map_of_mem later)
      rw [valueUnder?_of_ne keys.1 different]
      exact ih keys.2 distinct.2 later

/-- The number of variants among the nodes of an argument. -/
def layers (arg : Argument) : Nat :=
  (arg.nodes true).countP fun node => node.tag = .variant

theorem layers_nodesOfAll (args : List Argument) :
    (nodesOfAll true args).countP (fun node => node.tag = .variant) =
      (args.map layers).sum := by
  rw [nodesOfAll_eq, List.countP_flatMap]
  rfl

@[simp]
theorem layers_scalar (value : Scalar) : (scalar value).layers = 0 := rfl

@[simp]
theorem layers_array (element signature : Signature) (items : List Argument) :
    (array element signature items).layers = (items.map layers).sum := by
  rw [layers, nodes, List.countP_cons_of_neg (by simp [tag]), layers_nodesOfAll]

@[simp]
theorem layers_struct (signature : Signature) (members : List Argument) :
    (struct signature members).layers = (members.map layers).sum := by
  rw [layers, nodes, List.countP_cons_of_neg (by simp [tag]), layers_nodesOfAll]

@[simp]
theorem layers_dictEntry (signature : Signature) (key : Scalar) (value : Argument) :
    (dictEntry signature key value).layers = value.layers := by
  rw [layers, nodes, List.countP_cons_of_neg (by simp [tag]),
    List.countP_cons_of_neg (by simp [tag]), layers]

@[simp]
theorem layers_variant (content : Argument) : (variant content).layers = content.layers + 1 := by
  rw [layers, nodes, List.countP_cons_of_pos (by simp [tag]), if_pos rfl, layers]

end MessageArgs.Argument
