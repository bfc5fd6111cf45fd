import MessageArgs.Proofs.Argument.WellFormed

/-!
# The nodes of an argument

`Argument.nodes` lists an argument with everything inside it, keys of entries included. What a
variant holds is opaque to whoever reads the argument around it, so there are two lists:
`nodes false` stops at variants and `nodes true` opens them.

Conditions on whole trees are conditions on all nodes. `nodes_array`, `nodes_struct`,
`nodes_entry` and `nodes_variant` say what they come to for each container. The one used most is
that no dictionary has two keys with the same fingerprint (`RepeatsKey`).
-/

namespace MessageArgs.Argument

mutual

/-- An argument and the arguments inside it; those inside variants only if variants are opened. -/
def nodes (opened : Bool) : Argument → List Argument
  | scalar value => [scalar value]
  | array element signature items => array element signature items :: nodesOfAll opened items
  | struct signature members => struct signature members :: nodesOfAll opened members
  | dictEntry signature key value =>
    dictEntry signature key value :: scalar key :: nodes opened value
  | variant content => variant content :: if opened then nodes opened content else []

/-- The nodes of several arguments. -/
def nodesOfAll (opened : Bool) : List Argument → List Argument
  | [] => []
  | arg :: args => nodes opened arg ++ nodesOfAll opened args

end

variable {opened : Bool} {P : Argument → Prop}

@[simp]
theorem nodesOfAll_eq (args : List Argument) :
    nodesOfAll opened args = args.flatMap (nodes opened) := by
  induction args with
  | nil => rfl
  | cons arg args ih => rw [nodesOfAll, ih, List.flatMap_cons]

theorem nodes_subset_nodesOfAll {arg : Argument} {args : List Argument} (member : arg ∈ args) :
    arg.nodes opened ⊆ nodesOfAll opened args := by
  intro node inside
  rw [nodesOfAll_eq]
  exact List.mem_flatMap_of_mem member inside

@[simp]
theorem nodes_scalar (value : Scalar) :
    (∀ node ∈ (scalar value).nodes opened, P node) ↔ P (scalar value) := by
  rw [nodes, List.forall_mem_singleton]

@[simp]
theorem nodes_array (element signature : Signature) (items : List Argument) :
    (∀ node ∈ (array element signature items).nodes opened, P node) ↔
      P (array element signature items) ∧ ∀ item ∈ items, ∀ node ∈ item.nodes opened, P node := by
  rw [nodes, List.forall_mem_cons, nodesOfAll_eq, List.forall_mem_flatMap]

@[simp]
theorem nodes_struct (signature : Signature) (members : List Argument) :
    (∀ node ∈ (struct signature members).nodes opened, P node) ↔
      P (struct signature members) ∧
        ∀ member ∈ members, ∀ node ∈ member.nodes opened, P node := by
  rw [nodes, List.forall_mem_cons, nodesOfAll_eq, List.forall_mem_flatMap]

@[simp]
theorem nodes_entry (signature : Signature) (key : Scalar) (value : Argument) :
    (∀ node ∈ (dictEntry signature key value).nodes opened, P node) ↔
      P (dictEntry signature key value) ∧ P (scalar key) ∧
        ∀ node ∈ value.nodes opened, P node := by
  rw [nodes, List.forall_mem_cons, List.forall_mem_cons]

@[simp]
theorem nodes_variant (content : Argument) :
    (∀ node ∈ (variant content).nodes opened, P node) ↔
      P (variant content) ∧ (opened = true → ∀ node ∈ content.nodes opened, P node) := by
  rw [nodes, List.forall_mem_cons]
  cases opened <;> simp

/-! ## Scalars -/

/-- A property of all scalars in an argument, keys and the contents of variants included. -/
def EachScalar (P : Scalar → Prop) (arg : Argument) : Prop :=
  ∀ node ∈ arg.nodes true, ∀ value, node = .scalar value → P value

variable {Q : Scalar → Prop}

@[simp]
theorem eachScalar_scalar {value : Scalar} : (scalar value).EachScalar Q ↔ Q value := by
  simp [EachScalar, nodes_scalar]

@[simp]
theorem eachScalar_array {element signature : Signature} {items : List Argument} :
    (array element signature items).EachScalar Q ↔ ∀ item ∈ items, item.EachScalar Q := by
  simp [EachScalar, nodes_array]

@[simp]
theorem eachScalar_struct {signature : Signature} {members : List Argument} :
    (struct signature members).EachScalar Q ↔ ∀ member ∈ members, member.EachScalar Q := by
  simp [EachScalar, nodes_struct]

@[simp]
theorem eachScalar_entry {signature : Signature} {key : Scalar} {value : Argument} :
    (dictEntry signature key value).EachScalar Q ↔ Q key ∧ value.EachScalar Q := by
  simp [EachScalar, nodes_entry]

@[simp]
theorem eachScalar_variant {content : Argument} :
    (variant content).EachScalar Q ↔ content.EachScalar Q := by
  simp [EachScalar, nodes_variant]

/-! ## Keys -/

/-- The fingerprint of the key of an entry. -/
def keyName? : Argument → Option String
  | dictEntry _ key _ => some key.fingerprint
  | _ => none

/-- The fingerprints of the keys of a dictionary, in order. -/
def keyNames : Argument → List String
  | array _ _ items => items.filterMap keyName?
  | _ => []

/-- Somewhere in an argument a dictionary has two keys with the same fingerprint. -/
def RepeatsKey (opened : Bool) (arg : Argument) : Prop :=
  ∃ node ∈ arg.nodes opened, ¬ node.keyNames.Nodup

theorem not_repeatsKey_iff {arg : Argument} :
    ¬ arg.RepeatsKey opened ↔ ∀ node ∈ arg.nodes opened, node.keyNames.Nodup := by
  simp only [RepeatsKey, not_exists, not_and, not_not]

@[simp]
theorem not_repeatsKey_scalar (value : Scalar) : ¬ (scalar value).RepeatsKey opened := by
  rw [not_repeatsKey_iff, nodes_scalar]
  exact List.nodup_nil

@[simp]
theorem repeatsKey_array_iff {element signature : Signature} {items : List Argument} :
    (array element signature items).RepeatsKey opened ↔
      ¬ (array element signature items).keyNames.Nodup ∨
        ∃ item ∈ items, item.RepeatsKey opened := by
  rw [← not_iff_not, not_repeatsKey_iff, nodes_array]
  simp only [not_or, not_not, not_exists, not_and, not_repeatsKey_iff]

@[simp]
theorem repeatsKey_struct_iff {signature : Signature} {members : List Argument} :
    (struct signature members).RepeatsKey opened ↔
      ∃ member ∈ members, member.RepeatsKey opened := by
  rw [← not_iff_not, not_repeatsKey_iff, nodes_struct]
  simp only [keyNames, List.nodup_nil, true_and, not_exists, not_and, not_repeatsKey_iff]

@[simp]
theorem repeatsKey_entry_iff {signature : Signature} {key : Scalar} {value : Argument} :
    (dictEntry signature key value).RepeatsKey opened ↔ value.RepeatsKey opened := by
  rw [← not_iff_not, not_repeatsKey_iff, nodes_entry, not_repeatsKey_iff]
  simp only [keyNames, List.nodup_nil, true_and]

@[simp]
theorem repeatsKey_variant_iff {content : Argument} :
    (variant content).RepeatsKey opened ↔ opened = true ∧ content.RepeatsKey opened := by
  rw [← not_iff_not, not_repeatsKey_iff, nodes_variant]
  simp only [keyNames, List.nodup_nil, true_and, not_and, not_repeatsKey_iff]

/-- Opening variants loses nothing. -/
theorem RepeatsKey.mono {arg : Argument} (h : arg.RepeatsKey false) : arg.RepeatsKey true := by
  induction arg using Argument.induction with
  | scalar value => exact absurd h (not_repeatsKey_scalar value)
  | array element signature items ih =>
    rw [repeatsKey_array_iff] at h ⊢
    exact h.imp_right fun inside => inside.imp fun item both => ⟨both.1, ih item both.1 both.2⟩
  | struct signature members ih =>
    rw [repeatsKey_struct_iff] at h ⊢
    exact h.imp fun member both => ⟨both.1, ih member both.1 both.2⟩
  | dictEntry signature key value ih =>
    rw [repeatsKey_entry_iff] at h ⊢
    exact ih h
  | variant content ih =>
    rw [repeatsKey_variant_iff] at h
    cases h.1

/-- Variants around an argument have no keys of their own. -/
@[simp]
theorem repeatsKey_unwrapped_iff {arg : Argument} :
    arg.unwrapped.RepeatsKey true ↔ arg.RepeatsKey true := by
  induction arg using Argument.induction with
  | variant content ih =>
    rw [repeatsKey_variant_iff, and_iff_right rfl]
    exact ih
  | _ => rfl

/-- Entries that are tagged with the fingerprints of their keys. -/
theorem filterMap_keyName? {keyed : List (String × Argument)}
    (tagged : ∀ entry ∈ keyed, entry.2.keyName? = some entry.1) :
    (keyed.map Prod.snd).filterMap keyName? = keyed.map Prod.fst := by
  induction keyed with
  | nil => rfl
  | cons entry keyed ih =>
    rw [List.forall_mem_cons] at tagged
    rw [List.map_cons, List.map_cons, List.filterMap_cons_some tagged.1, ih tagged.2]

/-- Only entries have keys. -/
theorem keyNames_of_tag_ne {element signature : Signature} {items : List Argument}
    (other : ∀ item ∈ items, item.tag ≠ .dictEntry) :
    (array element signature items).keyNames = [] := by
  rw [keyNames, List.filterMap_eq_nil_iff]
  intro item member
  cases item with
  | dictEntry => exact absurd rfl (other _ member)
  | _ => rfl

/-- An entry of a byte. -/
def byteEntry (key : String) (byte : UInt8) : Argument :=
  .dictEntry ⟨"\x7bsy\x7d"⟩ (.string key) (.scalar (.byte byte))

/-- A dictionary with one key twice. -/
def repeating : Argument :=
  .array ⟨"\x7bsy\x7d"⟩ ⟨"a\x7bsy\x7d"⟩ [byteEntry "a" 1, byteEntry "a" 2]

theorem byteEntry_wellFormed (key : String) (byte : UInt8) : (byteEntry key byte).WellFormed := by
  have single : Grammar.stored.read "\x7bsy\x7d" = .ok [.entry .string (.basic .byte)] := rfl
  have spelled : "\x7bsy\x7d" = "\x7b" ++ (Signature.ofType (.basic .string)).text ++
      (Signature.ofType (.basic .byte)).text ++ "\x7d" := by decide
  rw [byteEntry, WellFormed]
  exact ⟨spelled, ⟨_, single⟩, by simp [tag], wellFormed_scalar _⟩

theorem repeating_wellFormed : repeating.WellFormed := by
  have single : Grammar.stored.read "a\x7bsy\x7d" =
      .ok [.array (.entry .string (.basic .byte))] := rfl
  rw [repeating, WellFormed, allWellFormed_iff]
  refine ⟨by decide, ⟨_, single⟩, ?_, ?_⟩
  · rw [List.forall_mem_cons, List.forall_mem_singleton]
    exact ⟨rfl, rfl⟩
  · rw [List.forall_mem_cons, List.forall_mem_singleton]
    exact ⟨byteEntry_wellFormed "a" 1, byteEntry_wellFormed "a" 2⟩

theorem repeating_repeatsKey (opened : Bool) : repeating.RepeatsKey opened :=
  ⟨repeating, List.mem_cons_self, by decide⟩

end MessageArgs.Argument
