import MessageArgs.Proofs.Signature.Composition

/-!
# Cutting signatures by positions

The cuts of `Splitter` as loops over positions. `elementStop` runs over leading `a`s and then, if a
bracket opens, counts the brackets of both kinds until the count is back at zero (`bracketStop`);
`slices` goes from one stop to the next. On any text these are the cuts of `first` and `pieces`
(`elementStop_eq`, `slices_eq`), so each round moves on and none moves past the end
(`elementStop_bounds`).
-/

namespace MessageArgs.Splitter

/-- Where counting brackets ends that begins at a position with some brackets open: behind the one
that closes the last of them. The count never falls below zero. -/
def bracketStop (text : List Char) (depth pos : Nat) : Nat :=
  match _found : text[pos]? with
  | none => pos
  | some c =>
    if isOpening c then bracketStop text (depth + 1) (pos + 1)
    else if isClosing c then
      if depth - 1 = 0 then pos + 1 else bracketStop text (depth - 1) (pos + 1)
    else bracketStop text depth (pos + 1)
termination_by text.length - pos
decreasing_by all_goals
  have inside := (List.getElem?_eq_some_iff.1 _found).1
  omega

/-- Where the element ends that begins at a position. -/
def elementStop (text : List Char) (pos : Nat) : Nat :=
  match _found : text[pos]? with
  | none => pos
  | some c =>
    if c = 'a' then elementStop text (pos + 1)
    else if isOpening c then bracketStop text 0 pos
    else pos + 1
termination_by text.length - pos
decreasing_by
  have inside := (List.getElem?_eq_some_iff.1 _found).1
  omega

theorem getElem?_of_drop_cons {text rest : List Char} {pos : Nat} {c : Char}
    (left : text.drop pos = c :: rest) : text[pos]? = some c ∧ text.drop (pos + 1) = rest := by
  rw [← List.head?_drop, ← List.tail_drop, left]
  exact ⟨rfl, rfl⟩

theorem getElem?_of_drop_nil {text : List Char} {pos : Nat} (left : text.drop pos = []) :
    text[pos]? = none := by
  rw [← List.head?_drop, left]
  rfl

/-- Counting `depth + 1` open brackets is what `closeBrackets` does. -/
theorem bracketStop_eq {text rest : List Char} {depth pos : Nat} (left : text.drop pos = rest) :
    bracketStop text (depth + 1) pos = pos + (closeBrackets depth rest).1.length := by
  induction rest generalizing depth pos with
  | nil =>
    rw [bracketStop]
    split
    · rw [closeBrackets, List.length_nil, Nat.add_zero]
    · rename_i found
      rw [getElem?_of_drop_nil left] at found
      cases found
  | cons c rest ih =>
    obtain ⟨here, next⟩ := getElem?_of_drop_cons left
    rw [bracketStop]
    split
    · rename_i found
      rw [here] at found
      cases found
    · rename_i c' found
      rw [here] at found
      cases found
      rw [closeBrackets]
      split
      · rw [ih next, consFst, List.length_cons]
        omega
      split
      · rw [Nat.add_sub_cancel]
        split
        · rfl
        · obtain ⟨below, rfl⟩ := Nat.exists_eq_succ_of_ne_zero (by assumption)
          rw [Nat.succ_eq_add_one, ih next, consFst, List.length_cons, Nat.add_sub_cancel]
          omega
      · rw [ih next, consFst, List.length_cons]
        omega

/-- The position where an element ends is behind what `first` cuts off. The loop counts brackets
from the opening bracket itself, `closeBrackets` from the character behind it. -/
theorem elementStop_eq {text rest : List Char} {pos : Nat} (left : text.drop pos = rest) :
    elementStop text pos = pos + (first rest).1.length := by
  induction rest generalizing pos with
  | nil =>
    rw [elementStop]
    split
    · rw [first, List.length_nil, Nat.add_zero]
    · rename_i found
      rw [getElem?_of_drop_nil left] at found
      cases found
  | cons c rest ih =>
    obtain ⟨here, next⟩ := getElem?_of_drop_cons left
    rw [elementStop]
    split
    · rename_i found
      rw [here] at found
      cases found
    · rename_i c' found
      rw [here] at found
      cases found
      rw [first]
      split
      · rw [ih next, consFst, List.length_cons]
        omega
      split
      · rename_i opening
        rw [bracketStop]
        split
        · rename_i found
          rw [here] at found
          cases found
        · rename_i c' found
          rw [here] at found
          cases found
          rw [if_pos opening, bracketStop_eq next, consFst, List.length_cons]
          omega
      · rfl

/-- From any position inside a text, the end of the element is further on and inside the text. -/
theorem elementStop_bounds {text : List Char} {pos : Nat} (inside : pos < text.length) :
    pos < elementStop text pos ∧ elementStop text pos ≤ text.length := by
  have whole := congrArg List.length (first_append (text.drop pos))
  rw [List.length_append, List.length_drop] at whole
  obtain ⟨c, rest, left⟩ : ∃ c rest, text.drop pos = c :: rest :=
    ⟨_, _, List.drop_eq_getElem_cons inside⟩
  have shorter : (first (c :: rest)).2.length < (c :: rest).length := first_snd_length_lt
  rw [← left, List.length_drop] at shorter
  rw [elementStop_eq rfl]
  omega

theorem take_first (text : List Char) : text.take (first text).1.length = (first text).1 := by
  have front : ((first text).1 ++ (first text).2).take (first text).1.length = (first text).1 :=
    List.take_left
  rwa [first_append] at front

theorem drop_first (text : List Char) : text.drop (first text).1.length = (first text).2 := by
  have behind : ((first text).1 ++ (first text).2).drop (first text).1.length = (first text).2 :=
    List.drop_left
  rwa [first_append] at behind

/-- The parts of a text between one stop and the next. -/
def slices (text : List Char) (pos : Nat) : List (List Char) :=
  if _inside : pos < text.length then
    (text.drop pos).take (elementStop text pos - pos) :: slices text (elementStop text pos)
  else []
termination_by text.length - pos
decreasing_by
  have bounds := elementStop_bounds _inside
  omega

/-- The slices between stops are the pieces. -/
theorem slices_eq (text : List Char) (pos : Nat) : slices text pos = pieces (text.drop pos) := by
  induction pos using slices.induct text with
  | case1 pos inside ih =>
    rw [slices, dif_pos inside, ih]
    have left : text.drop pos ≠ [] := by
      rw [ne_eq, List.drop_eq_nil_iff]
      omega
    rw [elementStop_eq rfl, Nat.add_sub_cancel_left, ← List.drop_drop, take_first, drop_first,
      pieces_of_ne_nil left]
  | case2 pos outside =>
    rw [slices, dif_neg outside, List.drop_eq_nil_of_le (Nat.le_of_not_lt outside), pieces]

end MessageArgs.Splitter
