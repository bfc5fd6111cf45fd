import MessageArgs.Value

/-!
# The order of keys

How the keys of a typed map are ordered: numbers by size, texts by their code points, false before
true, sequences and maps item by item, and a part before the whole. It orders any two values of one
type of key; floating-point numbers and arguments are no keys and are ordered only so that the
order is total.
-/

namespace MessageArgs

namespace Atom

/-- The place of the kind of an atom among the kinds. -/
def rank : Atom → Nat
  | byte _ => 0
  | bool _ => 1
  | int16 _ => 2
  | uint16 _ => 3
  | int32 _ => 4
  | uint32 _ => 5
  | int64 _ => 6
  | uint64 _ => 7
  | single _ => 8
  | double _ => 9
  | string _ => 10

/-- The number that an atom other than a text is ordered by. -/
def weight : Atom → Int
  | byte n => n.toNat
  | bool b => b.toNat
  | int16 n => n.toInt
  | uint16 n => n.toNat
  | int32 n => n.toInt
  | uint32 n => n.toNat
  | int64 n => n.toInt
  | uint64 n => n.toNat
  | single x => x.bits.toNat
  | double x => x.bits.toNat
  | string _ => 0

/-- The order of atoms. -/
def compare : Atom → Atom → Ordering
  | string a, string b => Ord.compare a b
  | a, b => (Ord.compare a.rank b.rank).then (Ord.compare a.weight b.weight)

end Atom

namespace Value

/-- The place of the kind of a value among the kinds. -/
def rank : Value → Nat
  | atom _ => 0
  | seq _ => 1
  | map _ => 2
  | arg _ => 3

mutual

/-- The order of values. -/
def compare : Value → Value → Ordering
  | atom a, atom b => a.compare b
  | seq as, seq bs => compareAll as bs
  | map as, map bs => comparePairs as bs
  | a, b => Ord.compare a.rank b.rank

/-- The order of lists, item by item. -/
def compareAll : List Value → List Value → Ordering
  | [], [] => .eq
  | [], _ :: _ => .lt
  | _ :: _, [] => .gt
  | a :: as, b :: bs => (compare a b).then (compareAll as bs)

/-- The order of lists of pairs, pair by pair. -/
def comparePairs : List (Value × Value) → List (Value × Value) → Ordering
  | [], [] => .eq
  | [], _ :: _ => .lt
  | _ :: _, [] => .gt
  | (key, value) :: as, (key', value') :: bs =>
    ((compare key key').then (compare value value')).then (comparePairs as bs)

end

end Value

end MessageArgs
