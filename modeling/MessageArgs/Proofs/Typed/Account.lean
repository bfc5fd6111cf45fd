import MessageArgs.Proofs.Typed.Maps

/-!
# Members of native types

What a native type comes to, apart from how its members are encoded and read: the complete type
that its signature spells, the values that stand for a member, and when two members are the same.
An `Account` says this of a type, one combinator for each way of making types of others, and
`NativeType.account` puts the combinators together as `NativeType.model` does.

Maps may list their pairs in any order (`Account.map`), so a member may be shown in several ways.
Only types whose members have an order can be the keys of a map (`isKey`): no floating-point
numbers and no arguments.
-/

namespace MessageArgs

open Number (Single)

/-- What there is to say about the members of a type. -/
structure Model.Account (model : Model) where
  /-- The complete type, unless a map in it has keys that are not basic. -/
  type? : Option CompleteType
  /-- Whether the members have an order, so that they can be keys. -/
  isKey : Bool
  /-- Whether the keys of all maps in the type can be keys. -/
  isLegal : Bool
  /-- Whether no part of a member is an argument. -/
  isPlain : Bool
  /-- The pairs of all maps in a member are in order. -/
  Proper : model.Carrier → Prop
  /-- No argument in a member is a variant. -/
  Bare : model.Carrier → Prop
  /-- The values that stand for a member. -/
  Shows : model.Carrier → Value → Prop
  /-- Equality, but one single that is not a number is as good as another. -/
  Same : model.Carrier → model.Carrier → Prop

/-- What there is to say about several members, one after the other. -/
structure Members.Account (members : Members) where
  types? : Option (List CompleteType)
  isKey : Bool
  isLegal : Bool
  isPlain : Bool
  Proper : members.Carrier → Prop
  Bare : members.Carrier → Prop
  Shows : members.Carrier → List Value → Prop
  Same : members.Carrier → members.Carrier → Prop

namespace Model.Account

/-- Types whose members are atoms. -/
def ofAtom {α : Type} (type : BasicType) (toAtom : α → Atom) (ofAtom? : Atom → Option α)
    (isKey : Bool) (Same : α → α → Prop) : Account (.ofAtom type toAtom ofAtom?) where
  type? := some (.basic type)
  isKey := isKey
  isLegal := true
  isPlain := true
  Proper _ := True
  Bare _ := True
  Shows x shown := shown = .atom (toAtom x)
  Same := Same

/-- Arguments stand for themselves. -/
def argument : Account .argument where
  type? := some .variant
  isKey := false
  isLegal := true
  isPlain := false
  Proper _ := True
  Bare x := Argument.tag x ≠ .variant
  Shows x shown := shown = .arg x
  Same := Eq

/-- A list stands for the sequence of what its items stand for. -/
def list {item : Model} (account : Account item) : Account (.list item) where
  type? := account.type?.map .array
  isKey := account.isKey
  isLegal := account.isLegal
  isPlain := account.isPlain
  Proper := fun (xs : List item.Carrier) => ∀ x ∈ xs, account.Proper x
  Bare := fun (xs : List item.Carrier) => ∀ x ∈ xs, account.Bare x
  Shows xs shown := ∃ values, shown = .seq values ∧ List.Forall₂ account.Shows xs values
  Same := List.Forall₂ account.Same

/-- The complete type of a map. -/
def mapType? : Option CompleteType → Option CompleteType → Option CompleteType
  | some (.basic key), some element => some (.array (.entry key element))
  | _, _ => none

/-- A map stands for its pairs, which may be listed in any order. Only keys that have an order make
it legal. -/
def map {key value : Model} (keys : Account key) (values : Account value) :
    Account (.map key value) where
  type? := mapType? keys.type? values.type?
  isKey := keys.isKey && values.isKey
  isLegal := keys.isKey && keys.isLegal && values.isLegal
  isPlain := keys.isPlain && values.isPlain
  Proper := fun (pairs : List (key.Carrier × value.Carrier)) =>
    Rising pairs ∧ ∀ pair ∈ pairs, keys.Proper pair.1 ∧ values.Proper pair.2
  Bare := fun (pairs : List (key.Carrier × value.Carrier)) =>
    ∀ pair ∈ pairs, keys.Bare pair.1 ∧ values.Bare pair.2
  Shows := fun (pairs : List (key.Carrier × value.Carrier)) shown =>
    ∃ arranged listed, arranged.Perm pairs ∧ shown = .map listed ∧
      List.Forall₂ (fun pair given => keys.Shows pair.1 given.1 ∧ values.Shows pair.2 given.2)
        arranged listed
  Same := List.Forall₂ fun pair pair' => keys.Same pair.1 pair'.1 ∧ values.Same pair.2 pair'.2

/-- A tuple stands for the sequence of what its members stand for. -/
def tuple {members : Members} (account : members.Account) : Account (.tuple members) where
  type? := account.types?.map .struct
  isKey := account.isKey
  isLegal := account.isLegal
  isPlain := account.isPlain
  Proper := account.Proper
  Bare := account.Bare
  Shows x shown := ∃ values, shown = .seq values ∧ account.Shows x values
  Same := account.Same

end Model.Account

namespace Members.Account

/-- Nothing follows. -/
def nil : Account .nil where
  types? := some []
  isKey := true
  isLegal := true
  isPlain := true
  Proper _ := True
  Bare _ := True
  Shows _ shown := shown = []
  Same := Eq

/-- A member in front of others; what is asked of a tuple is asked of each of its members. -/
def cons {first : Model} {rest : Members} (head : first.Account) (tail : rest.Account) :
    Account (.cons first rest) where
  types? := head.type?.bind fun type => tail.types?.map fun types => type :: types
  isKey := head.isKey && tail.isKey
  isLegal := head.isLegal && tail.isLegal
  isPlain := head.isPlain && tail.isPlain
  Proper x := head.Proper x.1 ∧ tail.Proper x.2
  Bare x := head.Bare x.1 ∧ tail.Bare x.2
  Shows x shown := ∃ value values, shown = value :: values ∧ head.Shows x.1 value ∧
    tail.Shows x.2 values
  Same x y := head.Same x.1 y.1 ∧ tail.Same x.2 y.2

end Members.Account

namespace NativeType

/-- What there is to say about the members of a type. -/
def account : (type : NativeType) → type.model.Account
  | byte => .ofAtom _ _ _ true Eq
  | bool => .ofAtom _ _ _ true Eq
  | int16 => .ofAtom _ _ _ true Eq
  | uint16 => .ofAtom _ _ _ true Eq
  | int32 => .ofAtom _ _ _ true Eq
  | uint32 => .ofAtom _ _ _ true Eq
  | int64 => .ofAtom _ _ _ true Eq
  | uint64 => .ofAtom _ _ _ true Eq
  | single => .ofAtom _ _ _ false fun x y => x = y ∨ x.isNaN ∧ y.isNaN
  | double => .ofAtom _ _ _ false Eq
  | string => .ofAtom _ _ _ true Eq
  | argument => .argument
  | list item => .list item.account
  | map key value => .map key.account value.account
  | tuple1 a => .tuple (.cons a.account .nil)
  | tuple2 a b => .tuple (.cons a.account (.cons b.account .nil))
  | tuple3 a b c => .tuple (.cons a.account (.cons b.account (.cons c.account .nil)))
  | tuple4 a b c d =>
    .tuple (.cons a.account (.cons b.account (.cons c.account (.cons d.account .nil))))

end NativeType

end MessageArgs
