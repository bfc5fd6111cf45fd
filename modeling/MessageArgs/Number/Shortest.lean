import MessageArgs.Number.Double

/-!
# Shortest decimals

The decimal numbers that round to a given double fill the interval between the midpoints to its two
neighbours; the midpoints belong to it exactly if the magnitude is even. `Decimal.shortest` is the
one of them with the fewest digits and, among those, nearest to the double. It is found by trying
grids of powers of ten, the coarsest first, and on each only the two points around the double: if
any point of a grid lies in the interval, one of these two does.
-/

namespace MessageArgs.Number

/-- A decimal number: `digits` times ten to the power of `exponent`. -/
structure Decimal where
  digits : Nat
  exponent : Int
deriving DecidableEq, Repr

/-- Which of two equally near decimals is taken. -/
inductive Tie
  | even
  | up
deriving DecidableEq, Repr

namespace Decimal

/-- The number of decimal digits of a natural number. -/
def digitCount (n : Nat) : Nat :=
  (Nat.toDigits 10 n).length

/-- Takes zeros off the end of the digits, at most `fuel` of them. -/
def trimZeros : Nat → Decimal → Decimal
  | 0, d => d
  | fuel + 1, d =>
    if d.digits % 10 = 0 then trimZeros fuel ⟨d.digits / 10, d.exponent + 1⟩ else d

/-- The same number without zeros at the end of its digits. -/
def normalize (d : Decimal) : Decimal :=
  trimZeros (digitCount d.digits) d

/-- The power of ten of the first digit. -/
def order (d : Decimal) : Int :=
  d.exponent + digitCount d.digits - 1

/-- The power of ten of the first digit of a positive quotient. -/
def quotientOrder (num den : Nat) : Int :=
  if den ≤ num then digitCount (num / den) - 1
  else -(digitCount ((den - 1) / num) : Int)

end Decimal

/-- A positive quotient and the interval of the decimals that may stand for it, all with the
denominator `den`. -/
structure DecimalInterval where
  value : Nat
  low : Nat
  high : Nat
  den : Nat
  /-- Whether the ends belong to the interval. -/
  closed : Bool

namespace DecimalInterval

/-- The decimals that round to a finite positive magnitude. -/
def ofMagnitude (format : BinaryFormat) (magnitude : Nat) : DecimalInterval where
  value := 2 * format.units magnitude
  low := format.units (magnitude - 1) + format.units magnitude
  high := format.units magnitude + format.units (magnitude + 1)
  den := 2 * Nat.pow 2 format.scale
  closed := magnitude % 2 = 0

/-- What numerators are multiplied by to count in powers of ten. -/
def numFactor (exponent : Int) : Nat := Nat.pow 10 (-exponent).toNat

/-- What denominators are multiplied by to count in powers of ten. -/
def denFactor (exponent : Int) : Nat := Nat.pow 10 exponent.toNat

/-- Whether a decimal lies in the interval. -/
def contains (interval : DecimalInterval) (d : Decimal) : Bool :=
  let point := d.digits * (interval.den * denFactor d.exponent)
  let low := interval.low * numFactor d.exponent
  let high := interval.high * numFactor d.exponent
  if interval.closed then low ≤ point && point ≤ high else low < point && point < high

/-- The point of a grid that is nearest to the value, if it lies in the interval, else the other
one of the two points around the value. -/
def onGrid? (interval : DecimalInterval) (tie : Tie) (exponent : Int) : Option Decimal :=
  let num := interval.value * numFactor exponent
  let den := interval.den * denFactor exponent
  let below : Decimal := ⟨num / den, exponent⟩
  let above : Decimal := ⟨num / den + 1, exponent⟩
  let rest := num % den
  let aboveFirst :=
    den < 2 * rest || 2 * rest = den && (tie = .up || below.digits % 2 = 1)
  let candidates := if aboveFirst then [above, below] else [below, above]
  candidates.find? fun d => d.digits ≠ 0 && interval.contains d

/-- No double needs more digits than this. -/
def maxDigits : Nat := 17

/-- The decimal with the fewest digits in the interval, and of those the nearest to the value. The
value itself, written out, would do if no short one did. -/
def shortest (interval : DecimalInterval) (tie : Tie) : Decimal :=
  let order := Decimal.quotientOrder interval.value interval.den
  let found := (List.range maxDigits).findSome? fun (places : Nat) =>
    interval.onGrid? tie (order - places)
  (found.getD ⟨interval.value * Nat.pow 10 (Nat.log2 interval.den) / interval.den,
    -(Nat.log2 interval.den : Int)⟩).normalize

end DecimalInterval

/-- The shortest decimal that reads back as a finite double, without its sign. -/
def Double.shortest (x : Double) (tie : Tie) : Decimal :=
  if x.isZero then ⟨0, 0⟩
  else (DecimalInterval.ofMagnitude BinaryFormat.double x.magnitude).shortest tie

end MessageArgs.Number
