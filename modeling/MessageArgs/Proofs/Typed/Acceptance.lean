import MessageArgs.Proofs.Encoding.Depth
import MessageArgs.Proofs.Typed.Laws

/-!
# Acceptance of plain members

The encoder takes every member of a type without arguments. What such a member is shown as conforms
to the type (`Steady`), since different keys have different fingerprints, and it carries no
arguments, so what is made of it is not too deep.
-/

namespace MessageArgs

open Encoding (AllConform Conforms keyScalar scalarOf)

/-- Members that conform to their type and carry no arguments. -/
structure Model.Account.Steady {model : Model} (account : Model.Account model) : Prop where
  conforms : ∀ {type x shown}, account.type? = some type → account.Proper x →
    account.Shows x shown → Conforms .standard type shown
  plain : ∀ {x shown}, account.Shows x shown → shown.Plain
  noVariant : account.type? ≠ some .variant

/-- Several members that conform to their types and carry no arguments. -/
structure Members.Account.Steady {members : Members} (account : members.Account) : Prop where
  conforms : ∀ {types x shown}, account.types? = some types → account.Proper x →
    account.Shows x shown → AllConform .standard types shown
  plain : ∀ {x shown}, account.Shows x shown → ∀ value ∈ shown, value.Plain

namespace Model.Account

variable {item key value : Model}

theorem steady_ofAtom {α : Type} {type : BasicType} {toAtom : α → Atom}
    {ofAtom? : Atom → Option α} {isKey : Bool} {Same : α → α → Prop}
    (takes : ∀ x, Encoding.Takes .standard type (toAtom x)) :
    (ofAtom type toAtom ofAtom? isKey Same).Steady where
  conforms := by
    intro found x shown named _ given
    cases named
    cases given
    exact takes x
  plain := by
    intro x shown given
    cases given
    exact Value.plain_atom _
  noVariant := nofun

theorem steady_list {account : Account item} (steady : account.Steady)
    (spelled : account.Spelled) : account.list.Steady where
  conforms := by
    intro found xs shown named proper given
    obtain ⟨type, inside, rfl⟩ := Option.map_eq_some_iff.1 named
    obtain ⟨values, rfl, related⟩ := given
    refine (Encoding.conforms_seq_iff (spelled.alone inside)).2 ⟨?_, ?_⟩
    · exact forall_right related fun x member value given =>
        steady.conforms inside (proper x member) given
    · intro variant
      subst variant
      exact absurd inside steady.noVariant
  plain := by
    intro xs shown given
    obtain ⟨values, rfl, related⟩ := given
    exact Value.plain_seq_iff.2 (forall_right related fun _ _ _ given => steady.plain given)
  noVariant named := by
    obtain ⟨type, -, variant⟩ := Option.map_eq_some_iff.1 named
    cases variant

theorem steady_tuple {members : Members} {account : members.Account} (steady : account.Steady) :
    (tuple account).Steady where
  conforms := by
    intro found x shown named proper given
    obtain ⟨types, inside, rfl⟩ := Option.map_eq_some_iff.1 named
    obtain ⟨values, rfl, related⟩ := given
    exact steady.conforms inside proper related
  plain := by
    intro x shown given
    obtain ⟨values, rfl, related⟩ := given
    exact Value.plain_seq_iff.2 (steady.plain related)
  noVariant named := by
    obtain ⟨types, -, variant⟩ := Option.map_eq_some_iff.1 named
    cases variant

/-! ## Maps -/

/-- The pairs of a map have different fingerprints, in whichever order they are listed. -/
theorem Names.nodup_fingerprints {keys : Account key} {type : BasicType}
    {name : key.Carrier → Atom} (names : keys.Names type name)
    {pairs arranged : List (key.Carrier × value.Carrier)} {listed : List (Value × Value)}
    (rising : Rising pairs) (order : arranged.Perm pairs)
    (shown : List.Forall₂ (fun pair given => keys.Shows pair.1 given.1) arranged listed) :
    (listed.map fun given => (keyScalar type given.1).fingerprint).Nodup := by
  have := names.transCmp
  have same : (listed.map fun given => (keyScalar type given.1).fingerprint) =
      arranged.map fun pair => (scalarOf type (name pair.1)).fingerprint := by
    rw [← List.forall₂_eq_eq_eq, List.forall₂_map_right_iff, List.forall₂_map_left_iff]
    refine shown.flip.imp fun given pair shown => ?_
    rw [names.shown_eq shown, keyScalar]
  have distinct : pairs.Pairwise fun a b => a.1 ≠ b.1 := by
    refine rising.distinct.imp fun different equal => different ?_
    rw [equal]
    exact Std.ReflCmp.compare_self
  rw [same, List.Nodup, List.pairwise_map]
  refine ((order.pairwise_iff fun different => different.symm).2 distinct).imp ?_
  exact fun different equal => different (names.fingerprint_inj equal)

theorem steady_map {keys : Account key} {values : Account value} (isKey : keys.isKey = true)
    (lawful : keys.Lawful) (steadyKeys : keys.Steady) (steadyValues : values.Steady) :
    (keys.map values).Steady where
  conforms := by
    intro found pairs shown named proper given
    obtain ⟨type, element, basic, inside, rfl⟩ := mapType?_eq_some_iff.1 named
    obtain ⟨arranged, listed, order, rfl, related⟩ := given
    obtain ⟨rising, parts⟩ := proper
    obtain ⟨name, names⟩ := lawful.names isKey basic
    refine ⟨forall_right related fun pair member given shown => ⟨?_, ?_⟩, fun _ => ?_⟩
    · rw [names.shown_eq shown.1]
      exact names.takes pair.1
    · exact steadyValues.conforms inside (parts pair (order.mem_iff.1 member)).2 shown.2
    · exact names.nodup_fingerprints rising order (related.imp fun _ _ => And.left)
  plain := by
    intro pairs shown given
    obtain ⟨arranged, listed, -, rfl, related⟩ := given
    exact Value.plain_map_iff.2 (forall_right related fun _ _ _ shown =>
      ⟨steadyKeys.plain shown.1, steadyValues.plain shown.2⟩)
  noVariant named := by
    obtain ⟨_, _, -, -, variant⟩ := mapType?_eq_some_iff.1 named
    cases variant

end Model.Account

namespace Members.Account

theorem steady_nil : nil.Steady where
  conforms := by
    intro types x shown named _ given
    cases named
    cases given
    trivial
  plain := by
    intro x shown given
    cases given
    exact fun _ => nofun

theorem steady_cons {first : Model} {rest : Members} {head : first.Account} {tail : rest.Account}
    (steadyHead : head.Steady) (steadyTail : tail.Steady) : (cons head tail).Steady where
  conforms := by
    intro types x shown named proper given
    obtain ⟨type, own, named⟩ := Option.bind_eq_some_iff.1 named
    obtain ⟨others, listed, rfl⟩ := Option.map_eq_some_iff.1 named
    obtain ⟨value, values, rfl, first, others⟩ := given
    exact ⟨steadyHead.conforms own proper.1 first, steadyTail.conforms listed proper.2 others⟩
  plain := by
    intro x shown given
    obtain ⟨value, values, rfl, first, others⟩ := given
    exact List.forall_mem_cons.2 ⟨steadyHead.plain first, steadyTail.plain others⟩

end Members.Account

namespace NativeType

open Model.Account Members.Account

/-- The members of every type without arguments are taken. -/
theorem steady (type : NativeType) (legal : type.account.isLegal = true)
    (plain : type.account.isPlain = true) : type.account.Steady := by
  induction type with
  | byte | bool | int16 | uint16 | int32 | uint32 | int64 | uint64 | single | double | string =>
    exact steady_ofAtom fun _ => trivial
  | argument => cases plain
  | list item ih => exact steady_list (ih legal plain) item.spelled
  | map key value ihKey ihValue =>
    simp only [account, Model.Account.map, Bool.and_eq_true] at legal plain
    exact steady_map legal.1.1 (key.lawful legal.1.2) (ihKey legal.1.2 plain.1)
      (ihValue legal.2 plain.2)
  | tuple1 a iha =>
    simp only [account, tuple, cons, nil, Bool.and_true] at legal plain
    exact steady_tuple (steady_cons (iha legal plain) steady_nil)
  | tuple2 a b iha ihb =>
    simp only [account, tuple, cons, nil, Bool.and_true, Bool.and_eq_true] at legal plain
    exact steady_tuple
      (steady_cons (iha legal.1 plain.1) (steady_cons (ihb legal.2 plain.2) steady_nil))
  | tuple3 a b c iha ihb ihc =>
    simp only [account, tuple, cons, nil, Bool.and_true, Bool.and_eq_true] at legal plain
    exact steady_tuple
      (steady_cons (iha legal.1 plain.1) (steady_cons (ihb legal.2.1 plain.2.1)
        (steady_cons (ihc legal.2.2 plain.2.2) steady_nil)))
  | tuple4 a b c d iha ihb ihc ihd =>
    simp only [account, tuple, cons, nil, Bool.and_true, Bool.and_eq_true] at legal plain
    exact steady_tuple
      (steady_cons (iha legal.1 plain.1) (steady_cons (ihb legal.2.1 plain.2.1)
        (steady_cons (ihc legal.2.2.1 plain.2.2.1)
          (steady_cons (ihd legal.2.2.2 plain.2.2.2) steady_nil))))

end NativeType

end MessageArgs
