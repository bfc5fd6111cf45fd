import MessageArgs.Proofs.Fingerprint
import MessageArgs.Proofs.Number.Widening
import MessageArgs.Proofs.RoundTrip
import MessageArgs.Proofs.Typed.Spelling
import MessageArgs.Proofs.Value.Order

/-!
# Laws of native types

Every way of making types of others keeps three laws (`Lawful`): a member is shown as its own value,
the decoder can read what it is shown as, and what is left of that after encoding and decoding is
taken for the same member again. `NativeType.lawful` puts the combinators together.

The keys of a map that travels are atoms, and no two of them are one scalar (`Names`). So the
order of keys is that of atoms, and different keys have different fingerprints.
-/

namespace MessageArgs

open Encoding (AllConform Conforms Takes scalarOf)
open Number (Single)
open Value (AllReadable Readable norm normAll)

namespace Model.Account

variable {model item key value : Model}

/-! ## Keys -/

/-- Members that travel as scalars of one type, different ones as different scalars. -/
structure Names (account : Account model) (type : BasicType) (name : model.Carrier → Atom) :
    Prop where
  toValue_eq : ∀ x, model.toValue x = .atom (name x)
  shown_eq : ∀ {x shown}, account.Shows x shown → shown = .atom (name x)
  takes : ∀ x, Takes .standard type (name x)
  inj : ∀ {x y}, scalarOf type (name x) = scalarOf type (name y) → x = y
  same_eq : ∀ {x y}, account.Same x y → x = y

namespace Names

variable {account : Account model} {type : BasicType} {name : model.Carrier → Atom}

theorem compareKeys_eq (names : Names account type name) (x y : model.Carrier) :
    model.compareKeys x y = (name x).compare (name y) := by
  rw [Model.compareKeys, names.toValue_eq, names.toValue_eq, Value.compare]

theorem transCmp (names : Names account type name) : Std.TransCmp model.compareKeys where
  eq_swap := by
    intro x y
    rw [names.compareKeys_eq, names.compareKeys_eq]
    exact Std.OrientedCmp.eq_swap
  isLE_trans := by
    intro x y z
    rw [names.compareKeys_eq, names.compareKeys_eq, names.compareKeys_eq]
    exact Std.TransCmp.isLE_trans

/-- Different keys have different fingerprints. -/
theorem fingerprint_inj (names : Names account type name) {x y : model.Carrier}
    (same : (scalarOf type (name x)).fingerprint = (scalarOf type (name y)).fingerprint) :
    x = y :=
  names.inj (Scalar.fingerprint_inj.1 same)

end Names

/-! ## The laws -/

/-- Members come back from what they are shown as. -/
structure Lawful (account : Account model) : Prop where
  shows : ∀ x, account.Shows x (model.toValue x)
  readable : ∀ {type x shown}, account.type? = some type → account.Shows x shown →
    Readable .standard type shown
  returns : ∀ {type x shown}, account.type? = some type → account.Proper x → account.Bare x →
    account.Shows x shown → Conforms .standard type shown →
      ∃ y, model.ofValue (norm .standard type shown) = .ok y ∧ account.Same x y
  names : ∀ {type}, account.isKey = true → account.type? = some (.basic type) →
    ∃ name, Names account type name

end Model.Account

/-- Several members come back from what they are shown as. -/
structure Members.Account.Lawful {members : Members} (account : members.Account) : Prop where
  count : ∀ {types}, account.types? = some types → types.length = members.count
  shows : ∀ x, account.Shows x (members.toValues x)
  readable : ∀ {types x shown}, account.types? = some types → account.Shows x shown →
    AllReadable .standard types shown
  returns : ∀ {types x shown}, account.types? = some types → account.Proper x → account.Bare x →
    account.Shows x shown → AllConform .standard types shown →
      ∃ y, members.ofValues (normAll .standard types shown) = .ok y ∧ account.Same x y

namespace Model.Account

variable {item key value : Model}

/-! ## Atoms and arguments -/

theorem ofValue_ofAtom {α : Type} {type : BasicType} (toAtom : α → Atom)
    {ofAtom? : Atom → Option α} {atom : Atom} {x : α} (read : ofAtom? atom = some x) :
    (Model.ofAtom type toAtom ofAtom?).ofValue (.atom atom) = .ok x := by
  simp only [Model.ofAtom, read]

theorem lawful_ofAtom {α : Type} {type : BasicType} {toAtom : α → Atom}
    {ofAtom? : Atom → Option α} {isKey : Bool} {Same : α → α → Prop}
    (back : ∀ x, ∃ y, ofAtom? (toAtom x).widened = some y ∧ Same x y)
    (takes : ∀ x, Takes .standard type (toAtom x))
    (keys : isKey = true → Same = Eq ∧
      ∀ {x y}, scalarOf type (toAtom x) = scalarOf type (toAtom y) → x = y) :
    (ofAtom type toAtom ofAtom? isKey Same).Lawful where
  shows _ := rfl
  readable := by
    intro found x shown named given
    cases named
    cases given
    trivial
  returns := by
    intro found x shown named _ _ given _
    cases named
    cases given
    obtain ⟨y, read, same⟩ := back x
    exact ⟨y, ofValue_ofAtom toAtom read, same⟩
  names := by
    intro found key named
    cases named
    obtain ⟨same, inj⟩ := keys key
    exact ⟨toAtom, fun _ => rfl, id, takes, inj, fun equal => same ▸ equal⟩

theorem lawful_argument : argument.Lawful where
  shows _ := rfl
  readable := by
    intro found x shown named _
    cases named
    trivial
  returns := by
    intro found x shown named _ bare given _
    cases named
    cases given
    exact ⟨x, congrArg Except.ok (Argument.content_eq_iff.2 bare), rfl⟩
  names key := nomatch key

/-! ## Lists and tuples -/

theorem lawful_list {account : Account item} (lawful : account.Lawful)
    (spelled : account.Spelled) : account.list.Lawful where
  shows xs := by
    refine ⟨xs.map item.toValue, rfl, List.forall₂_map_right_iff.2 (List.forall₂_same.2 ?_)⟩
    exact fun x _ => lawful.shows x
  readable := by
    intro found xs shown named given
    obtain ⟨type, inside, rfl⟩ := Option.map_eq_some_iff.1 named
    obtain ⟨values, rfl, related⟩ := given
    rw [Value.readable_seq_iff (spelled.alone inside)]
    exact forall_right related fun x _ value given => lawful.readable inside given
  returns := by
    intro found xs shown named proper bare given conforms
    obtain ⟨type, inside, rfl⟩ := Option.map_eq_some_iff.1 named
    obtain ⟨values, rfl, related⟩ := given
    have other := spelled.alone inside
    obtain ⟨conform, -⟩ := (Encoding.conforms_seq_iff other).1 conforms
    obtain ⟨ys, read, same⟩ := exists_forall₂ related fun x member value present given =>
      lawful.returns inside (proper x member) (bare x member) given (conform value present)
    refine ⟨ys, ?_, same⟩
    rw [Value.norm_seq values other]
    exact mapM_ok_iff.2 (List.forall₂_map_left_iff.2 read)
  names key named := by
    obtain ⟨type, -, basic⟩ := Option.map_eq_some_iff.1 named
    cases basic

theorem lawful_tuple {members : Members} {account : members.Account} (lawful : account.Lawful) :
    (tuple account).Lawful where
  shows x := ⟨members.toValues x, rfl, lawful.shows x⟩
  readable := by
    intro found x shown named given
    obtain ⟨types, inside, rfl⟩ := Option.map_eq_some_iff.1 named
    obtain ⟨values, rfl, related⟩ := given
    exact lawful.readable inside related
  returns := by
    intro found x shown named proper bare given conforms
    obtain ⟨types, inside, rfl⟩ := Option.map_eq_some_iff.1 named
    obtain ⟨values, rfl, related⟩ := given
    obtain ⟨y, read, same⟩ := lawful.returns inside proper bare related conforms
    obtain ⟨arity, -⟩ := Encoding.allConform_iff.1 conforms
    have count : (normAll .standard types values).length = members.count := by
      rw [Value.normAll_eq, List.length_map, List.length_zip, ← arity, Nat.min_self,
        lawful.count inside]
    refine ⟨y, ?_, same⟩
    show (if (normAll .standard types values).length ≠ members.count then _
      else members.ofValues (normAll .standard types values)) = _
    rw [if_neg (not_not.2 count)]
    exact read
  names key named := by
    obtain ⟨types, -, basic⟩ := Option.map_eq_some_iff.1 named
    cases basic

/-! ## Maps -/

/-- The pair that is read where a pair was shown, if both parts come back. -/
theorem readPair_norm {config : CodecConfig} {type : BasicType} {element : CompleteType}
    {given : Value × Value} {name : key.Carrier} {content : value.Carrier}
    (first : key.ofValue (norm config (.basic type) given.1) = .ok name)
    (second : value.ofValue (norm config element given.2) = .ok content) :
    readPair key value (Value.normBasic config type given.1, norm config element given.2) =
      .ok (name, content) :=
  bind_ok_iff.2 ⟨name, first, bind_ok_iff.2 ⟨content, second, rfl⟩⟩

/-- The pairs of a map come back one by one in the order in which they were listed, and are put in
the order of their keys at the end. -/
theorem lawful_map {keys : Account key} {values : Account value} (isKey : keys.isKey = true)
    (lawfulKeys : keys.Lawful) (lawfulValues : values.Lawful) : (keys.map values).Lawful where
  shows pairs := by
    refine ⟨pairs, _, .refl _, rfl, List.forall₂_map_right_iff.2 (List.forall₂_same.2 ?_)⟩
    exact fun pair _ => ⟨lawfulKeys.shows pair.1, lawfulValues.shows pair.2⟩
  readable := by
    intro found pairs shown named given
    obtain ⟨type, element, basic, inside, rfl⟩ := mapType?_eq_some_iff.1 named
    obtain ⟨arranged, listed, -, rfl, related⟩ := given
    exact forall_right related fun pair _ given shown =>
      ⟨lawfulKeys.readable basic shown.1, lawfulValues.readable inside shown.2⟩
  returns := by
    intro found pairs shown named proper bare given conforms
    obtain ⟨type, element, basic, inside, rfl⟩ := mapType?_eq_some_iff.1 named
    obtain ⟨arranged, listed, order, rfl, related⟩ := given
    obtain ⟨rising, parts⟩ := proper
    obtain ⟨conform, distinct⟩ := conforms
    obtain ⟨name, names⟩ := lawfulKeys.names isKey basic
    have := names.transCmp
    obtain ⟨results, read, same⟩ := exists_forall₂
      (S := fun given result => readPair key value
        (Value.normBasic .standard type given.1, norm .standard element given.2) = .ok result)
      (T := fun pair result => keys.Same pair.1 result.1 ∧ values.Same pair.2 result.2)
      related (by
        intro pair member given present shown
        have listed := order.mem_iff.1 member
        have conformsKey : Conforms .standard (.basic type) given.1 := by
          rw [names.shown_eq shown.1]
          exact names.takes pair.1
        obtain ⟨y, first, sameKey⟩ := lawfulKeys.returns basic (parts pair listed).1
          (bare pair listed).1 shown.1 conformsKey
        obtain ⟨z, second, sameValue⟩ := lawfulValues.returns inside (parts pair listed).2
          (bare pair listed).2 shown.2 (conform given present).2
        exact ⟨(y, z), readPair_norm first second, sameKey, sameValue⟩)
    refine ⟨mapOfPairs key value results, ?_,
      forall₂_mapOfPairs rising order same fun _ _ same => names.same_eq same.1⟩
    rw [Value.norm_map_of_nodup (distinct rfl)]
    exact map_ok_iff.2 ⟨results, mapM_ok_iff.2 (List.forall₂_map_left_iff.2 read), rfl⟩
  names key named := by
    obtain ⟨_, _, -, -, basic⟩ := mapType?_eq_some_iff.1 named
    cases basic

end Model.Account

namespace Members.Account

theorem lawful_nil : nil.Lawful where
  count named := by
    cases named
    rfl
  shows _ := rfl
  readable := by
    intro types x shown named given
    cases named
    cases given
    trivial
  returns := by
    intro types x shown named _ _ given _
    cases named
    cases given
    exact ⟨(), rfl, rfl⟩

theorem lawful_cons {first : Model} {rest : Members} {head : first.Account} {tail : rest.Account}
    (lawfulHead : head.Lawful) (lawfulTail : tail.Lawful) : (cons head tail).Lawful where
  count named := by
    obtain ⟨type, -, named⟩ := Option.bind_eq_some_iff.1 named
    obtain ⟨types, listed, rfl⟩ := Option.map_eq_some_iff.1 named
    exact congrArg Nat.succ (lawfulTail.count listed)
  shows x := ⟨_, _, rfl, lawfulHead.shows x.1, lawfulTail.shows x.2⟩
  readable := by
    intro types x shown named given
    obtain ⟨type, own, named⟩ := Option.bind_eq_some_iff.1 named
    obtain ⟨others, listed, rfl⟩ := Option.map_eq_some_iff.1 named
    obtain ⟨value, values, rfl, first, others⟩ := given
    exact ⟨lawfulHead.readable own first, lawfulTail.readable listed others⟩
  returns := by
    intro types x shown named proper bare given conforms
    obtain ⟨type, own, named⟩ := Option.bind_eq_some_iff.1 named
    obtain ⟨others, listed, rfl⟩ := Option.map_eq_some_iff.1 named
    obtain ⟨value, values, rfl, first, others⟩ := given
    obtain ⟨y, read, same⟩ := lawfulHead.returns own proper.1 bare.1 first conforms.1
    obtain ⟨ys, reads, sames⟩ := lawfulTail.returns listed proper.2 bare.2 others conforms.2
    refine ⟨(y, ys), ?_, same, sames⟩
    exact bind_ok_iff.2 ⟨y, read, bind_ok_iff.2 ⟨ys, reads, rfl⟩⟩

end Members.Account

namespace NativeType

open Model.Account Members.Account

/-- Every type keeps the laws, if the keys of its maps have an order. -/
theorem lawful (type : NativeType) (legal : type.account.isLegal = true) :
    type.account.Lawful := by
  induction type with
  | byte | bool | int16 | uint16 | int32 | uint32 | int64 | uint64 | string =>
    refine lawful_ofAtom (fun x => ⟨x, rfl, rfl⟩) (fun _ => trivial) fun _ => ⟨rfl, ?_⟩
    intro x y same
    cases same
    rfl
  | single =>
    refine lawful_ofAtom (fun x => ⟨x.widen.narrow, rfl, ?_⟩) (fun _ => trivial) nofun
    cases nan : x.isNaN with
    | false => exact .inl (Single.narrow_widen nan).symm
    | true => exact .inr ⟨rfl, Single.isNaN_narrow_widen nan⟩
  | double => exact lawful_ofAtom (fun x => ⟨x, rfl, rfl⟩) (fun _ => trivial) nofun
  | argument => exact lawful_argument
  | list item ih => exact lawful_list (ih legal) item.spelled
  | map key value ihKey ihValue =>
    simp only [account, Model.Account.map, Bool.and_eq_true] at legal
    exact lawful_map legal.1.1 (ihKey legal.1.2) (ihValue legal.2)
  | tuple1 a iha =>
    simp only [account, tuple, cons, nil, Bool.and_true] at legal
    exact lawful_tuple (lawful_cons (iha legal) lawful_nil)
  | tuple2 a b iha ihb =>
    simp only [account, tuple, cons, nil, Bool.and_true, Bool.and_eq_true] at legal
    exact lawful_tuple (lawful_cons (iha legal.1) (lawful_cons (ihb legal.2) lawful_nil))
  | tuple3 a b c iha ihb ihc =>
    simp only [account, tuple, cons, nil, Bool.and_true, Bool.and_eq_true] at legal
    exact lawful_tuple
      (lawful_cons (iha legal.1) (lawful_cons (ihb legal.2.1)
        (lawful_cons (ihc legal.2.2) lawful_nil)))
  | tuple4 a b c d iha ihb ihc ihd =>
    simp only [account, tuple, cons, nil, Bool.and_true, Bool.and_eq_true] at legal
    exact lawful_tuple
      (lawful_cons (iha legal.1) (lawful_cons (ihb legal.2.1)
        (lawful_cons (ihc legal.2.2.1) (lawful_cons (ihd legal.2.2.2) lawful_nil))))

end NativeType

end MessageArgs
