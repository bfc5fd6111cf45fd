import MessageArgs.Number.Shortest

/-!
# Writing doubles

A `Layout` says how the shortest digits of a double are laid out: which powers of ten are written
positionally, whether whole numbers keep a `.0`, and how an exponent is signed.
-/

namespace MessageArgs.Number

/-- How a double is written. -/
structure Layout where
  /-- The powers of ten of a first digit that are written positionally; all, if absent. -/
  positional : Option (Int × Int)
  /-- Whether a whole number in positional form ends in `.0`. -/
  keepsPoint : Bool
  /-- The sign of an exponent that is not negative. -/
  plus : String
  /-- Which of two equally near digits is taken. -/
  tie : Tie

namespace Layout

/-- Digits with the point `places` digits from their end. -/
def fixed (keepsPoint : Bool) (d : Decimal) : String :=
  let digits := Nat.toDigits 10 d.digits
  let whole :=
    if 0 ≤ d.exponent then digits ++ List.replicate d.exponent.toNat '0'
    else digits.take (digits.length - d.exponent.natAbs)
  let fraction :=
    if 0 ≤ d.exponent then []
    else
      List.replicate (d.exponent.natAbs - digits.length) '0'
        ++ digits.drop (digits.length - d.exponent.natAbs)
  let lead := if whole.isEmpty then ['0'] else whole
  let tail :=
    if fraction.isEmpty then (if keepsPoint then ['.', '0'] else []) else '.' :: fraction
  String.ofList (lead ++ tail)

/-- One digit before the point and a power of ten. -/
def scientific (plus : String) (d : Decimal) : String :=
  let digits := Nat.toDigits 10 d.digits
  let fraction := if digits.length ≤ 1 then [] else '.' :: digits.drop 1
  let sign := if d.order < 0 then "-" else plus
  String.ofList (digits.take 1 ++ fraction) ++ "e" ++ sign ++ toString d.order.natAbs

/-- Whether a decimal is written positionally; zero always is. -/
def isPositional (layout : Layout) (d : Decimal) : Bool :=
  match layout.positional with
  | none => true
  | some (low, high) => d.digits = 0 || low ≤ d.order && d.order < high

/-- The text of a finite double. -/
def finite (layout : Layout) (x : Double) : String :=
  let d := x.shortest layout.tie
  let body :=
    if layout.isPositional d then fixed layout.keepsPoint d else scientific layout.plus d
  if x.negative then "-" ++ body else body

/-- The text of any double. -/
def write (layout : Layout) (x : Double) : String :=
  if x.isNaN then "NaN"
  else if x.isInfinite then (if x.negative then "-inf" else "inf")
  else layout.finite x

end Layout

end MessageArgs.Number
