import MessageArgs.Number.BinaryFormat

/-!
# Doubles and singles

Floating-point numbers as the words that hold them. Two words with the same bits are equal; the
comparison of the numbers themselves is `Double.same`, for which a NaN differs from everything and
the two zeros are one number. Arithmetic is exact arithmetic on natural numbers followed by one
rounding.
-/

namespace MessageArgs.Number

/-- A number of 64 bits. -/
structure Double where
  bits : UInt64
deriving DecidableEq, Repr

/-- A number of 32 bits. -/
structure Single where
  bits : UInt32
deriving DecidableEq, Repr

/-- A NaN keeps the upper bits of its payload in another format and becomes quiet. -/
def convertNaN (source target : BinaryFormat) (magnitude : Nat) : Nat :=
  let payload := magnitude - source.infinity
  let shifted := payload * Nat.pow 2 target.fractionBits / Nat.pow 2 source.fractionBits
  target.infinity + (shifted ||| Nat.pow 2 (target.fractionBits - 1))

/-- The magnitude of a word of one format in another format. -/
def convertMagnitude (source target : BinaryFormat) (magnitude : Nat) : Nat :=
  if source.infinity < magnitude then convertNaN source target magnitude
  else source.convert target magnitude

namespace Double

/-- Whether the sign bit is set. -/
def negative (x : Double) : Bool :=
  BinaryFormat.double.signBit ≤ x.bits.toNat

/-- The word without its sign bit. -/
def magnitude (x : Double) : Nat :=
  x.bits.toNat % BinaryFormat.double.signBit

/-- The number with a sign and a magnitude. -/
def ofMagnitude (negative : Bool) (magnitude : Nat) : Double :=
  ⟨UInt64.ofNat ((if negative then BinaryFormat.double.signBit else 0) + magnitude)⟩

/-- Not a number. -/
def isNaN (x : Double) : Bool :=
  BinaryFormat.double.infinity < x.magnitude

/-- One of the two infinities. -/
def isInfinite (x : Double) : Bool :=
  x.magnitude = BinaryFormat.double.infinity

/-- Neither infinite nor NaN. -/
def isFinite (x : Double) : Bool :=
  x.magnitude < BinaryFormat.double.infinity

/-- One of the two zeros. -/
def isZero (x : Double) : Bool :=
  x.magnitude = 0

/-- Equality of numbers: a NaN equals nothing, and the zeros are equal. -/
def same (x y : Double) : Bool :=
  !x.isNaN && !y.isNaN && (x = y || x.isZero && y.isZero)

/-- The number nearest to an integer. -/
def ofInt (n : Int) : Double :=
  ofMagnitude (decide (n < 0)) (BinaryFormat.double.ofNat n.natAbs)

end Double

namespace Single

/-- Whether the sign bit is set. -/
def negative (x : Single) : Bool :=
  BinaryFormat.single.signBit ≤ x.bits.toNat

/-- The word without its sign bit. -/
def magnitude (x : Single) : Nat :=
  x.bits.toNat % BinaryFormat.single.signBit

/-- The number with a sign and a magnitude. -/
def ofMagnitude (negative : Bool) (magnitude : Nat) : Single :=
  ⟨UInt32.ofNat ((if negative then BinaryFormat.single.signBit else 0) + magnitude)⟩

/-- Not a number. -/
def isNaN (x : Single) : Bool :=
  BinaryFormat.single.infinity < x.magnitude

/-- One of the two zeros. -/
def isZero (x : Single) : Bool :=
  x.magnitude = 0

/-- Equality of numbers: a NaN equals nothing, and the zeros are equal. -/
def same (x y : Single) : Bool :=
  !x.isNaN && !y.isNaN && (x = y || x.isZero && y.isZero)

/-- Every single is a double. -/
def widen (x : Single) : Double :=
  Double.ofMagnitude x.negative
    (convertMagnitude BinaryFormat.single BinaryFormat.double x.magnitude)

end Single

/-- The single nearest to a double; of two that are equally near, the even one. -/
def Double.narrow (x : Double) : Single :=
  Single.ofMagnitude x.negative
    (convertMagnitude BinaryFormat.double BinaryFormat.single x.magnitude)

end MessageArgs.Number
