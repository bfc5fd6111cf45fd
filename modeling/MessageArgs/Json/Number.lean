import MessageArgs.Number.Layout

/-!
# Numbers in JSON

`NumberText` is a number as it is written; `NumberText.value?` is the number that readers take it
for. A number without fraction and exponent is an integer as long as it fits into 64 bits, signed
or not; minus zero is not an integer.

Any other number is a double, and it is computed in steps that each round. The digits are gathered
into a significand of at most 64 bits. A digit of the whole part that does not fit any more only
raises the exponent, as do all digits of the whole part after it. A digit of the fraction that does
not fit is dropped with all digits after it. The significand is then converted and multiplied or
divided by a power of ten. So a text with many digits may be read as a neighbour of the nearest
double. A number too large for a double is refused.
-/

namespace MessageArgs.Json

open Number (BinaryFormat Double)

/-- A number as a reader takes it. -/
inductive NumberValue
  | integer (n : Int)
  | double (x : Double)
deriving DecidableEq, Repr

/-- A number as it is written. The fraction has digits exactly if there is a point. -/
structure NumberText where
  negative : Bool
  whole : List Nat
  fraction : List Nat
  exponent : Option Int
deriving DecidableEq, Repr

/-- The number that a list of decimal digits stands for. -/
def ofDigits (digits : List Nat) : Nat :=
  digits.foldl (fun n digit => 10 * n + digit) 0

/-- Significands stay below this bound. -/
def significandBound : Nat := Nat.pow 2 64

/-- Appends digits to a significand as long as it stays in bounds; the other digits are left. -/
def gather (significand : Nat) : List Nat → Nat × List Nat
  | [] => (significand, [])
  | digit :: rest =>
    if 10 * significand + digit < significandBound then gather (10 * significand + digit) rest
    else (significand, digit :: rest)

/-- The magnitude of ten to some power. -/
def powerOfTen (exponent : Nat) : Nat :=
  BinaryFormat.double.ofNat (Nat.pow 10 exponent)

/-- The greatest power of ten that is a double. -/
def maxPower : Nat := 308

/-- Divides a magnitude by a power of ten, in steps if the power is too large for a double. -/
def divideByPower (magnitude exponent : Nat) : Nat :=
  if exponent ≤ maxPower then BinaryFormat.double.div magnitude (powerOfTen exponent)
  else if magnitude = 0 then 0
  else divideByPower (BinaryFormat.double.div magnitude (powerOfTen maxPower)) (exponent - maxPower)
termination_by exponent
decreasing_by
  have : maxPower = 308 := rfl
  omega

/-- A magnitude times a power of ten, unless the result is too large for a double. -/
def scaleByPower (magnitude : Nat) (exponent : Int) : Option Nat :=
  if exponent < 0 then some (divideByPower magnitude exponent.natAbs)
  else if magnitude = 0 then some 0
  else if exponent.natAbs ≤ maxPower then
    let product := BinaryFormat.double.mul magnitude (powerOfTen exponent.natAbs)
    if product < BinaryFormat.double.infinity then some product else none
  else none

namespace NumberText

/-- The double that a number is read as. -/
def double? (text : NumberText) : Option Double :=
  let whole := gather 0 text.whole
  let fraction := gather whole.1 text.fraction
  let places := text.fraction.length - fraction.2.length
  let exponent := text.exponent.getD 0 + whole.2.length - places
  (scaleByPower (BinaryFormat.double.ofNat fraction.1) exponent).map
    (Double.ofMagnitude text.negative)

/-- The integer that a number is read as. -/
def integer? (text : NumberText) : Option Int :=
  if text.fraction.isEmpty && text.exponent.isNone then
    let n := ofDigits text.whole
    if text.negative then
      if 0 < n ∧ n ≤ Nat.pow 2 63 then some (-n) else none
    else
      if n < Nat.pow 2 64 then some n else none
  else
    none

/-- The number that a text is read as. -/
def value? (text : NumberText) : Option NumberValue :=
  match text.integer? with
  | some n => some (.integer n)
  | none => text.double?.map .double

end NumberText

end MessageArgs.Json
