/-!
# Cutting a signature by its brackets

Text that is known to be a signature can be cut into its complete types without reading them: an
element is its leading `a`s and then either one character or everything up to the bracket that
closes the next one. `first` cuts off one element and `pieces` cuts up a whole text; they never
fail, and on any text the pieces put together again are the text.
-/

namespace MessageArgs.Splitter

/-- Adds a character in front of the first of two parts. -/
def consFst (c : Char) (parts : List Char × List Char) : List Char × List Char :=
  (c :: parts.1, parts.2)

/-- A character that opens a bracket. -/
def isOpening (c : Char) : Bool :=
  c = '(' || c = '{'

/-- A character that closes a bracket. -/
def isClosing (c : Char) : Bool :=
  c = ')' || c = '}'

/-- Cuts after the character that closes the last of `depth + 1` open brackets. -/
def closeBrackets : Nat → List Char → List Char × List Char
  | _, [] => ([], [])
  | depth, c :: rest =>
    if isOpening c then consFst c (closeBrackets (depth + 1) rest)
    else if isClosing c then
      if depth = 0 then ([c], rest) else consFst c (closeBrackets (depth - 1) rest)
    else consFst c (closeBrackets depth rest)

/-- Cuts after the first element. -/
def first : List Char → List Char × List Char
  | [] => ([], [])
  | c :: rest =>
    if c = 'a' then consFst c (first rest)
    else if isOpening c then consFst c (closeBrackets 0 rest)
    else ([c], rest)

theorem closeBrackets_append (depth : Nat) (text : List Char) :
    (closeBrackets depth text).1 ++ (closeBrackets depth text).2 = text := by
  induction text generalizing depth with
  | nil => simp [closeBrackets]
  | cons c rest ih =>
    rw [closeBrackets]
    split
    · simp [consFst, ih]
    · split
      · split
        · simp
        · simp [consFst, ih]
      · simp [consFst, ih]

/-- Cutting loses nothing. -/
theorem first_append (text : List Char) : (first text).1 ++ (first text).2 = text := by
  induction text with
  | nil => simp [first]
  | cons c rest ih =>
    rw [first]
    split
    · simp [consFst, ih]
    · split
      · simp [consFst, closeBrackets_append]
      · simp

/-- Every cut takes at least one character. -/
theorem first_snd_length_lt {c : Char} {rest : List Char} :
    (first (c :: rest)).2.length < (c :: rest).length := by
  have whole := congrArg List.length (first_append (c :: rest))
  have taken : 0 < (first (c :: rest)).1.length := by
    rw [first]
    split
    · simp [consFst]
    · split <;> simp [consFst]
  simp only [List.length_append] at whole
  omega

/-- The elements of a text, in order. -/
def pieces : List Char → List (List Char)
  | [] => []
  | c :: rest =>
    let cut := first (c :: rest)
    cut.1 :: pieces cut.2
termination_by text => text.length
decreasing_by exact first_snd_length_lt

end MessageArgs.Splitter
