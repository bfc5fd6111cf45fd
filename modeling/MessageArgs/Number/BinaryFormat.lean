/-!
# Binary floating-point formats

A format has a number of fraction bits and of exponent bits. The magnitude of a number is the
natural number that its fraction and exponent fields make, so magnitudes are ordered as the numbers
are and the next magnitude is the next number. `units` is the value of a magnitude, counted in the
smallest positive number of the format, and `ofQuotient` is the magnitude nearest to a quotient of
such counts; of two that are equally near it takes the even one. The magnitude after the largest
number is `infinity`, and all greater ones are not numbers.
-/

namespace MessageArgs.Number

/-- The nearest natural number to a quotient; a half goes to the even neighbour. -/
def roundHalfEven (num den : Nat) : Nat :=
  let quotient := num / den
  let rest := num % den
  if 2 * rest < den then quotient
  else if den < 2 * rest then quotient + 1
  else quotient + quotient % 2

/-- The layout of a floating-point word: its sign bit, exponent field and fraction field. -/
structure BinaryFormat where
  fractionBits : Nat
  exponentBits : Nat
deriving DecidableEq, Repr

namespace BinaryFormat

/-- Words of 64 bits. -/
def double : BinaryFormat := ⟨52, 11⟩

/-- Words of 32 bits. -/
def single : BinaryFormat := ⟨23, 8⟩

variable (format : BinaryFormat)

/-- The magnitude of infinity: all exponent bits set and no fraction bits. -/
def infinity : Nat :=
  (Nat.pow 2 format.exponentBits - 1) * Nat.pow 2 format.fractionBits

/-- The value of the sign bit. -/
def signBit : Nat :=
  Nat.pow 2 (format.fractionBits + format.exponentBits)

/-- The smallest positive number is two to the power of minus `scale`. -/
def scale : Nat :=
  Nat.pow 2 (format.exponentBits - 1) + format.fractionBits - 2

/-- The value of a magnitude, in units of the smallest positive number. -/
def units (magnitude : Nat) : Nat :=
  let exponent := magnitude / Nat.pow 2 format.fractionBits
  let fraction := magnitude % Nat.pow 2 format.fractionBits
  if exponent = 0 then fraction
  else (Nat.pow 2 format.fractionBits + fraction) * Nat.pow 2 (exponent - 1)

/-- The magnitude nearest to a quotient of units, `infinity` beyond the largest number. -/
def ofQuotient (num den : Nat) : Nat :=
  let spacing := Nat.log2 (num / den) - format.fractionBits
  let fraction := roundHalfEven num (den * Nat.pow 2 spacing)
  min (spacing * Nat.pow 2 format.fractionBits + fraction) format.infinity

/-- The magnitude nearest to a natural number. -/
def ofNat (n : Nat) : Nat :=
  format.ofQuotient (n * Nat.pow 2 format.scale) 1

/-- The magnitude nearest to a product of two finite magnitudes. -/
def mul (a b : Nat) : Nat :=
  format.ofQuotient (format.units a * format.units b) (Nat.pow 2 format.scale)

/-- The magnitude nearest to a quotient of two finite magnitudes. -/
def div (a b : Nat) : Nat :=
  format.ofQuotient (format.units a * Nat.pow 2 format.scale) (format.units b)

/-- A finite or infinite magnitude of one format as the nearest one of another format. -/
def convert (target : BinaryFormat) (magnitude : Nat) : Nat :=
  if magnitude = format.infinity then target.infinity
  else target.ofQuotient (format.units magnitude * Nat.pow 2 target.scale) (Nat.pow 2 format.scale)

end BinaryFormat

end MessageArgs.Number
