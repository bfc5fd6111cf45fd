import MessageArgs.Json.Tree
import MessageArgs.Proofs.Json.Strings

/-!
# Numbers come back

A number ends where no digit, point or exponent follows (`EndsNumber`). What is read as a number on
its own is read as the same number in front of such a text (`readNumber_append`). The integers of 64
bits are read as they are printed (`reproduced_natural` and `reproduced_signed`). For doubles this
is a condition, `NumberValue.Reproduced`: their digits are multiplied out with rounding when they
are read.
-/

namespace MessageArgs.Json

open Text (Letter)

variable {letters rest : List Letter}

/-! ## Where numbers end -/

/-- A text that does not continue a number in front of it. -/
def EndsNumber (rest : List Letter) : Prop :=
  ∀ letter ∈ rest.head?, decimalDigit? letter = none ∧ letter ≠ some '.' ∧ letter ≠ some 'e' ∧
    letter ≠ some 'E'

theorem readDigits_of_not_digit {letter : Letter} (other : decimalDigit? letter = none)
    (rest : List Letter) : readDigits (letter :: rest) = ([], letter :: rest) := by
  rw [readDigits, other]

theorem readDigits_append (ends : EndsNumber rest) (letters : List Letter) :
    readDigits (letters ++ rest) = ((readDigits letters).1, (readDigits letters).2 ++ rest) := by
  induction letters with
  | nil =>
    cases rest with
    | nil => rfl
    | cons letter rest => exact readDigits_of_not_digit (ends letter rfl).1 rest
  | cons letter letters ih =>
    rw [List.cons_append, readDigits, readDigits, ih]
    cases decimalDigit? letter <;> rfl

/-- A text begins with a letter only if it does so on its own or is empty. -/
theorem append_ne_cons {letter : Letter} (own : ∀ after, letters ≠ letter :: after)
    (follows : ∀ next ∈ rest.head?, next ≠ letter) (after : List Letter) :
    letters ++ rest ≠ letter :: after := by
  intro same
  rcases List.append_eq_cons_iff.1 same with ⟨-, rfl⟩ | ⟨before, begins, -⟩
  · exact follows letter rfl rfl
  · exact own before begins

theorem readWhole_append (ends : EndsNumber rest) {whole : List Nat} {left : List Letter}
    (h : readWhole letters = some (whole, left)) :
    readWhole (letters ++ rest) = some (whole, left ++ rest) := by
  rw [readWhole] at h ⊢
  rw [readDigits_append ends]
  generalize readDigits letters = read at h
  obtain ⟨digits, left'⟩ := read
  rcases digits with _ | ⟨_ | digit, _ | ⟨digit', digits⟩⟩ <;> cases h <;> rfl

/-- Without a point there is no fraction. -/
theorem readFraction_of_no_point (none : ∀ after, letters ≠ some '.' :: after) :
    readFraction letters = some ([], letters) := by
  rw [readFraction]
  exact none

theorem readFraction_append (ends : EndsNumber rest) {fraction : List Nat} {left : List Letter}
    (h : readFraction letters = some (fraction, left)) :
    readFraction (letters ++ rest) = some (fraction, left ++ rest) := by
  by_cases point : ∃ after, letters = some '.' :: after
  · obtain ⟨after, rfl⟩ := point
    rw [List.cons_append]
    rw [readFraction] at h ⊢
    rw [readDigits_append ends]
    generalize readDigits after = read at h
    obtain ⟨_ | digits, left'⟩ := read <;> cases h
    rfl
  · have own : ∀ after, letters ≠ some '.' :: after := fun after same => point ⟨after, same⟩
    rw [readFraction_of_no_point own] at h
    rw [readFraction_of_no_point (append_ne_cons own fun next head => (ends next head).2.1)]
    cases h
    rfl

/-- Other letters are no sign. -/
theorem readSign_of_no_sign {letter : Letter} (plus : letter ≠ some '+') (minus : letter ≠ some '-')
    (letters : List Letter) : readSign (letter :: letters) = (false, letter :: letters) := by
  rw [readSign]
  · rintro _ ⟨⟩
    exact plus rfl
  · rintro _ ⟨⟩
    exact minus rfl

theorem readSign_append (start : letters ≠ []) :
    readSign (letters ++ rest) = ((readSign letters).1, (readSign letters).2 ++ rest) := by
  cases letters with
  | nil => exact absurd rfl start
  | cons letter letters =>
    by_cases plus : letter = some '+'
    · subst plus
      rfl
    by_cases minus : letter = some '-'
    · subst minus
      rfl
    rw [List.cons_append, readSign_of_no_sign plus minus, readSign_of_no_sign plus minus,
      List.cons_append]

theorem readPower_append (ends : EndsNumber rest) {exponent : Option Int} {left : List Letter}
    (h : readPower letters = some (exponent, left)) :
    readPower (letters ++ rest) = some (exponent, left ++ rest) := by
  cases letters with
  | nil => cases h
  | cons letter letters =>
    rw [readPower] at h ⊢
    rw [readSign_append (List.cons_ne_nil _ _), readDigits_append ends]
    dsimp only at h ⊢
    generalize readDigits (readSign (letter :: letters)).2 = read at h
    obtain ⟨_ | digits, left'⟩ := read <;> cases h
    rfl

/-- Without its letter there is no exponent. -/
theorem readExponent_of_no_letter (lower : ∀ after, letters ≠ some 'e' :: after)
    (upper : ∀ after, letters ≠ some 'E' :: after) :
    readExponent letters = some (none, letters) := by
  rw [readExponent]
  · exact lower
  · exact upper

theorem readExponent_append (ends : EndsNumber rest) {exponent : Option Int} {left : List Letter}
    (h : readExponent letters = some (exponent, left)) :
    readExponent (letters ++ rest) = some (exponent, left ++ rest) := by
  by_cases lower : ∃ after, letters = some 'e' :: after
  · obtain ⟨after, rfl⟩ := lower
    exact readPower_append ends h
  by_cases upper : ∃ after, letters = some 'E' :: after
  · obtain ⟨after, rfl⟩ := upper
    exact readPower_append ends h
  · have own : ∀ after, letters ≠ some 'e' :: after := fun after same => lower ⟨after, same⟩
    have own' : ∀ after, letters ≠ some 'E' :: after := fun after same => upper ⟨after, same⟩
    rw [readExponent_of_no_letter own own'] at h
    rw [readExponent_of_no_letter
      (append_ne_cons own fun next head => (ends next head).2.2.1)
      (append_ne_cons own' fun next head => (ends next head).2.2.2)]
    cases h
    rfl

theorem readMagnitude_append (ends : EndsNumber rest) {negative : Bool} {text : NumberText}
    {left : List Letter} (h : readMagnitude negative letters = some (text, left)) :
    readMagnitude negative (letters ++ rest) = some (text, left ++ rest) := by
  simp only [readMagnitude, Option.bind_eq_bind, Option.bind_eq_some_iff, Option.pure_def,
    Option.some.injEq, Prod.exists, Prod.mk.injEq] at h ⊢
  obtain ⟨whole, afterWhole, wholeRead, fraction, afterFraction, fractionRead, exponent, _,
    exponentRead, rfl, rfl⟩ := h
  exact ⟨whole, _, readWhole_append ends wholeRead, fraction, _,
    readFraction_append ends fractionRead, exponent, _, readExponent_append ends exponentRead, rfl,
    rfl⟩

/-- Without a minus a number is a magnitude. -/
theorem readNumber_of_no_minus (none : ∀ after, letters ≠ some '-' :: after) :
    readNumber letters = readMagnitude false letters := by
  rw [readNumber]
  exact none

/-- A number is read the same way in front of a text that does not continue it. -/
theorem readNumber_append (ends : EndsNumber rest) {text : NumberText} {left : List Letter}
    (h : readNumber letters = some (text, left)) :
    readNumber (letters ++ rest) = some (text, left ++ rest) := by
  cases letters with
  | nil => cases h
  | cons letter letters =>
    by_cases minus : letter = some '-'
    · subst minus
      exact readMagnitude_append ends h
    · rw [readNumber_of_no_minus fun _ same => minus (List.cons.inj same).1] at h
      rw [List.cons_append, readNumber_of_no_minus fun _ same => minus (List.cons.inj same).1]
      exact readMagnitude_append ends h

/-- The characters that a number begins with. -/
def BeginsNumber (c : Char) : Prop :=
  c = '-' ∨ '0' ≤ c ∧ c ≤ '9'
deriving Decidable

theorem readNumber_begins {text : NumberText} {left : List Letter}
    (h : readNumber letters = some (text, left)) :
    ∃ c after, letters = some c :: after ∧ BeginsNumber c := by
  cases letters with
  | nil => cases h
  | cons letter letters =>
    by_cases minus : letter = some '-'
    · exact ⟨'-', letters, by rw [minus], Or.inl rfl⟩
    rw [readNumber_of_no_minus fun _ same => minus (List.cons.inj same).1] at h
    cases digit : decimalDigit? letter with
    | none =>
      rw [readMagnitude, readWhole, readDigits_of_not_digit digit] at h
      cases h
    | some value =>
      cases letter with
      | none => cases digit
      | some c =>
        rw [decimalDigit?] at digit
        split at digit
        · rename_i decimal
          exact ⟨c, letters, rfl, Or.inr decimal⟩
        · cases digit

/-! ## Integers -/

theorem decimalDigit?_of_isDigit {c : Char} (h : c.isDigit = true) :
    decimalDigit? (some c) = some (c.toNat - '0'.toNat) := by
  rw [Char.isDigit, Bool.and_eq_true, decide_eq_true_eq, decide_eq_true_eq] at h
  exact if_pos h

theorem readDigits_of_isDigit {chars : List Char} (h : ∀ c ∈ chars, c.isDigit = true) :
    readDigits (chars.map some) = (chars.map fun c => c.toNat - '0'.toNat, []) := by
  induction chars with
  | nil => rfl
  | cons c chars ih =>
    rw [List.forall_mem_cons] at h
    rw [List.map_cons, readDigits, decimalDigit?_of_isDigit h.1, ih h.2]
    rfl

theorem digitChar_eq_zero : ∀ n < 10, n.digitChar = '0' → n = 0 := by
  decide

/-- No zero leads the digits of a number, except for zero itself. -/
theorem toDigits_leading (n : Nat) : ∃ c chars, Nat.toDigits 10 n = c :: chars ∧
    (c = '0' → n = 0 ∧ chars = []) := by
  induction n using Nat.strongRecOn with
  | ind n ih =>
    by_cases small : n < 10
    · exact ⟨n.digitChar, [], Nat.toDigits_of_lt_base small,
        fun zero => ⟨digitChar_eq_zero n small zero, rfl⟩⟩
    · obtain ⟨c, chars, digits, leading⟩ := ih (n / 10) (by omega)
      refine ⟨c, chars ++ [(n % 10).digitChar], ?_, fun zero => ?_⟩
      · rw [Nat.toDigits_of_base_le (by omega) (by omega), digits, List.cons_append]
      · have := (leading zero).1
        omega

theorem isDigit_of_mem_toDigits (n : Nat) : ∀ c ∈ Nat.toDigits 10 n, c.isDigit = true :=
  fun _ member => Nat.isDigit_of_mem_toDigits (by omega) (by omega) member

theorem eq_zero_of_digit {c : Char} (digit : c.isDigit = true) (zero : c.toNat - '0'.toNat = 0) :
    c = '0' := by
  have low : '0'.toNat ≤ c.toNat := by
    rw [Char.isDigit, Bool.and_eq_true, decide_eq_true_eq] at digit
    exact digit.1
  rw [← Char.toNat_inj]
  omega

theorem readWhole_toDigits (n : Nat) : ∃ digits,
    readWhole ((Nat.toDigits 10 n).map some) = some (digits, []) ∧ ofDigits digits = n := by
  have decimal := isDigit_of_mem_toDigits n
  refine ⟨(Nat.toDigits 10 n).map fun c => c.toNat - '0'.toNat, ?_, ?_⟩
  · obtain ⟨c, chars, digits, leading⟩ := toDigits_leading n
    rw [readWhole, readDigits_of_isDigit decimal, digits, List.map_cons]
    rw [digits, List.forall_mem_cons] at decimal
    cases value : c.toNat - '0'.toNat with
    | succ digit => rfl
    | zero =>
      rw [(leading (eq_zero_of_digit decimal.1 value)).2]
      rfl
  · rw [ofDigits, List.foldl_map]
    exact Nat.ofDigitChars_ten_toDigits

theorem readMagnitude_toDigits (negative : Bool) (n : Nat) : ∃ digits,
    readMagnitude negative ((Nat.toDigits 10 n).map some) =
      some (⟨negative, digits, [], none⟩, []) ∧ ofDigits digits = n := by
  obtain ⟨digits, read, value⟩ := readWhole_toDigits n
  refine ⟨digits, ?_, value⟩
  rw [readMagnitude, read]
  rfl

/-! ## Reproduced numbers -/

/-- A number is read as it was from the text that is written for it. -/
def NumberValue.Reproduced (n : NumberValue) : Prop :=
  ∃ text, readNumber ((printNumber n).map some) = some (text, []) ∧ text.value? = some n

/-- Natural numbers of 64 bits are read as they were. -/
theorem reproduced_natural {n : Nat} (bounded : n < Nat.pow 2 64) :
    (NumberValue.integer n).Reproduced := by
  obtain ⟨digits, read, value⟩ := readMagnitude_toDigits false n
  refine ⟨⟨false, digits, [], none⟩, ?_, ?_⟩
  · have printed : printNumber (.integer n) = Nat.toDigits 10 n := String.toList_ofList
    rw [printed, readNumber_of_no_minus, read]
    intro after same
    obtain ⟨c, chars, digits, -⟩ := toDigits_leading n
    have decimal := isDigit_of_mem_toDigits n
    rw [digits] at same decimal
    cases same
    exact absurd (decimal '-' List.mem_cons_self) (by decide)
  · have whole : NumberText.integer? ⟨false, digits, [], none⟩ = some (Int.ofNat n) := by
      rw [NumberText.integer?, value]
      exact if_pos bounded
    simp only [NumberText.value?, whole]
    rfl

/-- Negative integers of 64 bits are read as they were. -/
theorem reproduced_negative {n : Nat} (bounded : n < Nat.pow 2 63) :
    (NumberValue.integer (Int.negSucc n)).Reproduced := by
  obtain ⟨digits, read, value⟩ := readMagnitude_toDigits true (n + 1)
  refine ⟨⟨true, digits, [], none⟩, ?_, ?_⟩
  · have printed : printNumber (.integer (Int.negSucc n)) = '-' :: Nat.toDigits 10 (n + 1) := by
      show ("-" ++ String.ofList (Nat.toDigits 10 (n + 1))).toList = _
      simp
    rw [printed, List.map_cons]
    exact read
  · have fits : 0 < n + 1 ∧ n + 1 ≤ Nat.pow 2 63 := ⟨by omega, bounded⟩
    have whole : NumberText.integer? ⟨true, digits, [], none⟩ = some (Int.negSucc n) := by
      rw [NumberText.integer?, value]
      exact if_pos fits
    simp only [NumberText.value?, whole]

/-- Integers of at most 64 bits with a sign are read as they were. -/
theorem reproduced_signed {n : Int} {bits : Nat} (low : -Int.ofNat (Nat.pow 2 bits) ≤ n)
    (high : n < Int.ofNat (Nat.pow 2 bits)) (wide : bits < 64) :
    (NumberValue.integer n).Reproduced := by
  have widest : Nat.pow 2 bits ≤ Nat.pow 2 63 := Nat.pow_le_pow_right (by omega) (by omega)
  rcases Int.lt_or_le n 0 with negative | natural
  · obtain ⟨m, rfl⟩ := Int.eq_negSucc_of_lt_zero negative
    have bounded : m + 1 ≤ Nat.pow 2 bits := Int.ofNat_le.1 (Int.neg_le_neg_iff.1 low)
    exact reproduced_negative (Nat.le_trans bounded widest)
  · obtain ⟨m, rfl⟩ := Int.eq_ofNat_of_zero_le natural
    have bounded : m < Nat.pow 2 bits := Int.ofNat_lt.1 high
    exact reproduced_natural (Nat.lt_trans (Nat.lt_of_lt_of_le bounded widest) (by decide))

end MessageArgs.Json
