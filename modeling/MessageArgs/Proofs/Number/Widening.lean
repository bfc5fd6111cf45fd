import Mathlib.Tactic.Ring
import MessageArgs.Number.Double

/-!
# Singles as doubles

A single survives being widened to a double and narrowed again (`narrow_widen`). Every number of a
format rounds to itself (`ofQuotient_units`), and every single has the value of some double
(`exists_double`), so neither conversion rounds. A NaN stays a NaN (`isNaN_narrow_widen`), though
its payload may change.
-/

namespace MessageArgs.Number

theorem roundHalfEven_mul (quotient : Nat) {den : Nat} (pos : 0 < den) :
    roundHalfEven (quotient * den) den = quotient := by
  simp [roundHalfEven, pos]

namespace BinaryFormat

/-! ## Magnitudes and their values -/

/-- The value of the number with a given exponent field and fraction field. -/
theorem units_fields (format : BinaryFormat) (exponent : Nat) {fraction : Nat}
    (bound : fraction < 2 ^ format.fractionBits) :
    format.units (exponent * 2 ^ format.fractionBits + fraction) =
      if exponent = 0 then fraction
      else (2 ^ format.fractionBits + fraction) * 2 ^ (exponent - 1) := by
  have top :
      (exponent * 2 ^ format.fractionBits + fraction) / 2 ^ format.fractionBits = exponent := by
    rw [Nat.add_comm, Nat.add_mul_div_right _ _ (Nat.two_pow_pos _), Nat.div_eq_of_lt bound,
      Nat.zero_add]
  have rest :
      (exponent * 2 ^ format.fractionBits + fraction) % 2 ^ format.fractionBits = fraction := by
    rw [Nat.mul_add_mod_self_right, Nat.mod_eq_of_lt bound]
  simp only [units, Nat.pow_eq, top, rest]

/-- Two to the power of an exponent, times less than two: its logarithm is the exponent. -/
theorem log2_scaled {bits fraction exponent : Nat} (bound : fraction < 2 ^ bits) :
    Nat.log2 ((2 ^ bits + fraction) * 2 ^ exponent) = bits + exponent := by
  have pos : 0 < 2 ^ exponent := Nat.two_pow_pos exponent
  have whole : 0 < 2 ^ bits := Nat.two_pow_pos bits
  have nonzero : (2 ^ bits + fraction) * 2 ^ exponent ≠ 0 :=
    (Nat.mul_pos (by omega) pos).ne'
  rw [Nat.log2_eq_iff nonzero]
  constructor
  · rw [Nat.pow_add]
    exact Nat.mul_le_mul_right _ (Nat.le_add_right _ _)
  · rw [Nat.add_right_comm, Nat.pow_add, Nat.pow_succ]
    exact Nat.mul_lt_mul_of_pos_right (by omega) pos

/-- A number of a format is the nearest one to its own value. -/
theorem ofQuotient_units {format : BinaryFormat} {magnitude den : Nat} (pos : 0 < den)
    (finite : magnitude ≤ format.infinity) :
    format.ofQuotient (format.units magnitude * den) den = magnitude := by
  have bound : magnitude % 2 ^ format.fractionBits < 2 ^ format.fractionBits :=
    Nat.mod_lt _ (Nat.two_pow_pos _)
  have fields := Nat.div_add_mod' magnitude (2 ^ format.fractionBits)
  generalize magnitude / 2 ^ format.fractionBits = exponent at fields
  generalize magnitude % 2 ^ format.fractionBits = fraction at fields bound
  have value := units_fields format exponent bound
  rw [fields] at value
  rw [ofQuotient, Nat.mul_div_cancel _ pos]
  simp only [Nat.pow_eq]
  by_cases subnormal : exponent = 0
  · rw [if_pos subnormal] at value
    have narrow : Nat.log2 fraction - format.fractionBits = 0 := by
      by_cases zero : fraction = 0
      · rw [zero, Nat.log2_zero, Nat.zero_sub]
      · have := (Nat.log2_lt zero).2 bound
        omega
    rw [value, narrow, Nat.pow_zero, Nat.mul_one, roundHalfEven_mul _ pos, Nat.zero_mul,
      Nat.zero_add]
    have same : fraction = magnitude := by rw [← fields, subnormal, Nat.zero_mul, Nat.zero_add]
    rw [same, Nat.min_eq_left finite]
  · rw [if_neg subnormal] at value
    have spacing : Nat.log2 ((2 ^ format.fractionBits + fraction) * 2 ^ (exponent - 1)) -
        format.fractionBits = exponent - 1 := by
      rw [log2_scaled bound, Nat.add_sub_cancel_left]
    have scaled : (2 ^ format.fractionBits + fraction) * 2 ^ (exponent - 1) * den =
        (2 ^ format.fractionBits + fraction) * (den * 2 ^ (exponent - 1)) := by ring
    have same : (exponent - 1) * 2 ^ format.fractionBits + (2 ^ format.fractionBits + fraction) =
        magnitude := by
      rw [← fields, ← Nat.add_assoc, ← Nat.succ_mul, Nat.succ_eq_add_one,
        Nat.sub_add_cancel (Nat.pos_of_ne_zero subnormal)]
    rw [value, spacing, scaled,
      roundHalfEven_mul _ (Nat.mul_pos pos (Nat.two_pow_pos (exponent - 1))), same,
      Nat.min_eq_left finite]

/-! ## Conversions -/

/-- A subnormal single is a double: its leading one moves to the place of the hidden bit. -/
theorem exists_double_subnormal {fraction : Nat} (bound : fraction < 2 ^ 23) :
    ∃ wide, wide < double.infinity ∧ double.units wide = fraction * 2 ^ 925 := by
  have limit : double.infinity = 2047 * 2 ^ 52 := rfl
  by_cases zero : fraction = 0
  · rw [zero, Nat.zero_mul]
    exact ⟨0, by omega, rfl⟩
  · obtain ⟨low, high⟩ := (Nat.log2_eq_iff zero).1 rfl
    have small : Nat.log2 fraction < 23 := (Nat.log2_lt zero).2 bound
    generalize Nat.log2 fraction = place at low high small
    have moved : 2 ^ place * 2 ^ (52 - place) = 2 ^ 52 := by
      rw [← Nat.pow_add, Nat.add_sub_cancel' (by omega)]
    have low' : 2 ^ 52 ≤ fraction * 2 ^ (52 - place) := by
      rw [← moved]
      exact Nat.mul_le_mul_right _ low
    have high' : fraction * 2 ^ (52 - place) < 2 * 2 ^ 52 := by
      rw [← moved, ← Nat.mul_assoc, ← Nat.pow_succ']
      exact Nat.mul_lt_mul_of_pos_right high (Nat.two_pow_pos _)
    have value := units_fields double (place + 874)
      (show fraction * 2 ^ (52 - place) - 2 ^ 52 < 2 ^ 52 by omega)
    have hidden : 2 ^ double.fractionBits + (fraction * 2 ^ (52 - place) - 2 ^ 52) =
        fraction * 2 ^ (52 - place) := Nat.add_sub_cancel' low'
    have exponents : 52 - place + (place + 874 - 1) = 925 := by omega
    refine ⟨(place + 874) * 2 ^ 52 + (fraction * 2 ^ (52 - place) - 2 ^ 52), ?_, value.trans ?_⟩
    · omega
    · rw [if_neg (by omega), hidden, Nat.mul_assoc, ← Nat.pow_add]
      exact congrArg (fraction * 2 ^ ·) exponents

/-- Any other single is a double with more bits in both fields. -/
theorem exists_double_normal {exponent fraction : Nat} (normal : exponent ≠ 0)
    (finite : exponent < 255) (bound : fraction < 2 ^ 23) :
    ∃ wide, wide < double.infinity ∧
      double.units wide = (2 ^ 23 + fraction) * 2 ^ (exponent - 1) * 2 ^ 925 := by
  have limit : double.infinity = 2047 * 2 ^ 52 := rfl
  have value := units_fields double (exponent + 896) (show fraction * 2 ^ 29 < 2 ^ 52 by omega)
  have hidden : 2 ^ double.fractionBits + fraction * 2 ^ 29 = (2 ^ 23 + fraction) * 2 ^ 29 := by
    show 2 ^ 52 + fraction * 2 ^ 29 = _
    omega
  have exponents : 29 + (exponent + 896 - 1) = exponent - 1 + 925 := by omega
  refine ⟨(exponent + 896) * 2 ^ 52 + fraction * 2 ^ 29, by omega, value.trans ?_⟩
  rw [if_neg (by omega), hidden, Nat.mul_assoc, ← Nat.pow_add, exponents, Nat.mul_assoc,
    ← Nat.pow_add]

/-- Doubles have all values of singles. Their unit is two to the power of 925 times smaller. -/
theorem exists_double {magnitude : Nat} (finite : magnitude < single.infinity) :
    ∃ wide, wide < double.infinity ∧ double.units wide = single.units magnitude * 2 ^ 925 := by
  have limit : single.infinity = 255 * 2 ^ 23 := rfl
  have bound : magnitude % 2 ^ 23 < 2 ^ 23 := Nat.mod_lt _ (Nat.two_pow_pos _)
  have fields := Nat.div_add_mod' magnitude (2 ^ 23)
  generalize magnitude / 2 ^ 23 = exponent at fields
  generalize magnitude % 2 ^ 23 = fraction at fields bound
  have value : single.units magnitude = _ := fields ▸ units_fields single exponent bound
  by_cases subnormal : exponent = 0
  · rw [value, if_pos subnormal]
    exact exists_double_subnormal bound
  · rw [value, if_neg subnormal]
    exact exists_double_normal subnormal (by omega) bound

theorem pow_pos (n : Nat) : 0 < Nat.pow 2 n :=
  Nat.two_pow_pos n

theorem mul_pow_of_add {gap low high : Nat} (n : Nat) (sum : gap + low = high) :
    n * Nat.pow 2 high = n * 2 ^ gap * Nat.pow 2 low := by
  rw [← sum, Nat.pow_eq, Nat.pow_eq, Nat.pow_add, Nat.mul_assoc]

/-- Widening does not round, so narrowing undoes it. -/
theorem convert_convert {magnitude : Nat} (finite : magnitude < single.infinity) :
    single.convert double magnitude < double.infinity ∧
      double.convert single (single.convert double magnitude) = magnitude := by
  obtain ⟨wide, finite', value⟩ := exists_double finite
  have units : single.units magnitude * Nat.pow 2 double.scale =
      double.units wide * Nat.pow 2 single.scale := by
    rw [value]
    exact mul_pow_of_add _ (show 925 + single.scale = double.scale from rfl)
  have widened : single.convert double magnitude = wide := by
    rw [convert, if_neg (Nat.ne_of_lt finite), units]
    exact ofQuotient_units (pow_pos single.scale) (Nat.le_of_lt finite')
  rw [widened, convert, if_neg (Nat.ne_of_lt finite'), ← units]
  exact ⟨finite', ofQuotient_units (pow_pos double.scale) (Nat.le_of_lt finite)⟩

end BinaryFormat

open BinaryFormat (double single)

/-! ## Words -/

theorem Double.magnitude_ofMagnitude (negative : Bool) {magnitude : Nat}
    (bound : magnitude < double.signBit) :
    (Double.ofMagnitude negative magnitude).negative = negative ∧
      (Double.ofMagnitude negative magnitude).magnitude = magnitude := by
  have width : double.signBit = 2 ^ 63 := rfl
  rw [width] at bound
  simp only [Double.negative, Double.magnitude, Double.ofMagnitude, width]
  cases negative <;> simp <;> omega

theorem Single.magnitude_ofMagnitude (negative : Bool) {magnitude : Nat}
    (bound : magnitude < single.signBit) :
    (Single.ofMagnitude negative magnitude).negative = negative ∧
      (Single.ofMagnitude negative magnitude).magnitude = magnitude := by
  have width : single.signBit = 2 ^ 31 := rfl
  rw [width] at bound
  simp only [Single.negative, Single.magnitude, Single.ofMagnitude, width]
  cases negative <;> simp <;> omega

theorem Single.ofMagnitude_magnitude (x : Single) :
    Single.ofMagnitude x.negative x.magnitude = x := by
  have width : single.signBit = 2 ^ 31 := rfl
  have bound := x.bits.toNat_lt
  have bits : (if x.negative then single.signBit else 0) + x.magnitude = x.bits.toNat := by
    simp only [Single.negative, Single.magnitude, width, decide_eq_true_eq]
    split <;> omega
  rw [Single.ofMagnitude, bits, UInt32.ofNat_toNat]

/-- The magnitudes of a format: numbers, infinity and NaNs. -/
def BinaryFormat.bound (format : BinaryFormat) : Nat :=
  format.infinity + 2 ^ format.fractionBits

/-- A NaN of one format becomes a NaN of another one. -/
theorem convertNaN_isNaN {source target : BinaryFormat} (fraction : 0 < target.fractionBits)
    {magnitude : Nat} (bound : magnitude < source.bound) :
    target.infinity < convertNaN source target magnitude ∧
      convertNaN source target magnitude < target.bound := by
  have payload : magnitude - source.infinity < 2 ^ source.fractionBits := by
    have : 0 < 2 ^ source.fractionBits := Nat.two_pow_pos _
    rw [BinaryFormat.bound] at bound
    omega
  have shifted : (magnitude - source.infinity) * 2 ^ target.fractionBits / 2 ^ source.fractionBits <
      2 ^ target.fractionBits := by
    rw [Nat.div_lt_iff_lt_mul (Nat.two_pow_pos _), Nat.mul_comm (2 ^ target.fractionBits)]
    exact Nat.mul_lt_mul_of_pos_right payload (Nat.two_pow_pos _)
  have quiet : 2 ^ (target.fractionBits - 1) < 2 ^ target.fractionBits :=
    Nat.pow_lt_pow_right (by decide) (by omega)
  simp only [convertNaN, BinaryFormat.bound, Nat.pow_eq]
  have below := Nat.or_lt_two_pow shifted quiet
  have above : 2 ^ (target.fractionBits - 1) ≤
    (magnitude - source.infinity) * 2 ^ target.fractionBits / 2 ^ source.fractionBits |||
      2 ^ (target.fractionBits - 1) := Nat.right_le_or
  have positive : 0 < 2 ^ (target.fractionBits - 1) := Nat.two_pow_pos _
  omega

/-- Numbers and infinity survive being widened and narrowed. -/
theorem convertMagnitude_number {magnitude : Nat} (number : magnitude ≤ single.infinity) :
    convertMagnitude single double magnitude < double.bound ∧
      convertMagnitude double single (convertMagnitude single double magnitude) = magnitude := by
  have above : double.infinity < double.bound := by decide
  rw [convertMagnitude, if_neg (Nat.not_lt.2 number)]
  rcases Nat.lt_or_eq_of_le number with finite | rfl
  · obtain ⟨wide, back⟩ := BinaryFormat.convert_convert finite
    rw [convertMagnitude, if_neg (Nat.not_lt.2 (Nat.le_of_lt wide))]
    exact ⟨Nat.lt_trans wide above, back⟩
  · exact ⟨above, rfl⟩

/-- A NaN stays a NaN. -/
theorem convertMagnitude_nan {magnitude : Nat} (nan : single.infinity < magnitude)
    (bound : magnitude < single.bound) :
    convertMagnitude single double magnitude < double.bound ∧
      single.infinity <
        convertMagnitude double single (convertMagnitude single double magnitude) ∧
      convertMagnitude double single (convertMagnitude single double magnitude) < single.bound := by
  obtain ⟨wide, bounded⟩ : double.infinity < convertNaN single double magnitude ∧ _ :=
    convertNaN_isNaN (by decide) bound
  rw [convertMagnitude, if_pos nan, convertMagnitude, if_pos wide]
  exact ⟨bounded, convertNaN_isNaN (by decide) bounded⟩

theorem Single.magnitude_lt (x : Single) : x.magnitude < single.bound :=
  Nat.mod_lt _ (by decide)

/-- The single that is left after widening and narrowing. -/
theorem Single.narrow_widen_eq {x : Single}
    (bound : convertMagnitude single double x.magnitude < double.bound) :
    x.widen.narrow = Single.ofMagnitude x.negative
      (convertMagnitude double single (convertMagnitude single double x.magnitude)) := by
  obtain ⟨sign, magnitude⟩ := Double.magnitude_ofMagnitude x.negative bound
  rw [Double.narrow, Single.widen, sign, magnitude]

/-- A single that is a number survives being widened and narrowed. -/
theorem Single.narrow_widen {x : Single} (number : x.isNaN = false) : x.widen.narrow = x := by
  rw [Single.isNaN, decide_eq_false_iff_not, Nat.not_lt] at number
  obtain ⟨bound, back⟩ := convertMagnitude_number number
  rw [Single.narrow_widen_eq bound, back, Single.ofMagnitude_magnitude]

/-- A single that is none stays none. -/
theorem Single.isNaN_narrow_widen {x : Single} (nan : x.isNaN = true) :
    x.widen.narrow.isNaN = true := by
  rw [Single.isNaN, decide_eq_true_eq] at nan ⊢
  obtain ⟨bound, again, bounded⟩ := convertMagnitude_nan nan x.magnitude_lt
  rwa [Single.narrow_widen_eq bound, (Single.magnitude_ofMagnitude _ bounded).2]

end MessageArgs.Number
