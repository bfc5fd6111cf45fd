import MessageArgs.Json.Document

/-!
# Text and strings come back

The bytes of a string are decoded to its characters (`letters_toUTF8`), and a string that is printed
in quotes is read as it was, whatever stands behind it (`readString_escaped`). Each character is
one piece of the string that is read: a code unit for control characters without an escape of their
own, else the character itself.
-/

namespace MessageArgs

namespace Text

/-! ## Letters -/

theorem size_utf8Encode_cons (c : Char) (chars : List Char) :
    (c :: chars).utf8Encode.size = c.utf8Size + chars.utf8Encode.size := by
  rw [← List.singleton_append, List.utf8Encode_append, ByteArray.size_append,
    List.utf8Encode_singleton]
  simp

theorem length_le_size_utf8Encode (chars : List Char) :
    chars.length ≤ chars.utf8Encode.size := by
  induction chars with
  | nil => exact Nat.zero_le _
  | cons c chars ih =>
    have := c.utf8Size_pos
    rw [List.length_cons, size_utf8Encode_cons]
    omega

/-- Behind other bytes, encoded characters are decoded as they are on their own. Each character that
is decoded joins the bytes before the next one. -/
theorem lettersFrom_utf8Encode (before : ByteArray) (chars : List Char) {fuel : Nat}
    (enough : chars.length ≤ fuel) :
    lettersFrom (before ++ chars.utf8Encode) fuel before.size = chars.map some := by
  induction chars generalizing before fuel with
  | nil =>
    cases fuel with
    | zero => rfl
    | succ fuel =>
      rw [lettersFrom, if_neg (by simp)]
      rfl
  | cons c chars ih =>
    cases fuel with
    | zero => simp at enough
    | succ fuel =>
      have inside : before.size < (before ++ (c :: chars).utf8Encode).size := by
        have := c.utf8Size_pos
        rw [ByteArray.size_append, size_utf8Encode_cons]
        omega
      have decoded : (before ++ (c :: chars).utf8Encode).utf8DecodeChar? before.size = some c := by
        rw [ByteArray.utf8DecodeChar?_eq_utf8DecodeChar?_extract,
          ByteArray.extract_append_eq_right rfl (by simp), List.utf8DecodeChar?_utf8Encode_cons]
      have moved : before ++ (c :: chars).utf8Encode =
          before ++ [c].utf8Encode ++ chars.utf8Encode := by
        rw [← List.singleton_append, List.utf8Encode_append, ByteArray.append_assoc]
      have next : before.size + c.utf8Size = (before ++ [c].utf8Encode).size := by
        simp [ByteArray.size_append, List.utf8Encode_singleton]
      rw [lettersFrom, if_pos inside, decoded, List.map_cons]
      dsimp only
      rw [moved, next, ih _ (by simpa using enough)]

/-- The letters of the bytes of a string are its characters. -/
theorem letters_toUTF8 (s : String) : letters s.toUTF8 = s.toList.map some := by
  have bytes : s.toUTF8 = ByteArray.empty ++ s.toList.utf8Encode := by
    rw [ByteArray.empty_append, ← String.toByteArray_ofList, String.ofList_toList]
    rfl
  have enough : s.toList.length ≤ s.toUTF8.size := by
    rw [bytes, ByteArray.empty_append]
    exact length_le_size_utf8Encode s.toList
  have decoded := lettersFrom_utf8Encode .empty s.toList enough
  rwa [← bytes] at decoded

end Text

namespace Json

open Text (Letter)

/-! ## Strings -/

/-- The ways in which a character is printed. -/
theorem escapeChar_cases (c : Char) :
    (∃ letter, letter ≠ 'u' ∧ unescape? (some letter) = some c ∧ escapeChar c = ['\\', letter]) ∨
    (c.toNat < 0x20 ∧ escapeChar c = '\\' :: 'u' :: unitDigits c.toNat) ∨
    (c ≠ '"' ∧ c ≠ '\\' ∧ 0x20 ≤ c.toNat ∧ escapeChar c = [c]) := by
  by_cases short : c ∈ ['"', '\\', '\x08', '\t', '\n', '\x0c', '\r']
  · left
    simp only [List.mem_cons, List.not_mem_nil, or_false] at short
    rcases short with rfl | rfl | rfl | rfl | rfl | rfl | rfl
    · exact ⟨'"', by decide, rfl, rfl⟩
    · exact ⟨'\\', by decide, rfl, rfl⟩
    · exact ⟨'b', by decide, rfl, rfl⟩
    · exact ⟨'t', by decide, rfl, rfl⟩
    · exact ⟨'n', by decide, rfl, rfl⟩
    · exact ⟨'f', by decide, rfl, rfl⟩
    · exact ⟨'r', by decide, rfl, rfl⟩
  · right
    simp only [List.mem_cons, List.not_mem_nil, or_false, not_or] at short
    obtain ⟨quote, backslash, others⟩ := short
    by_cases control : c.toNat < 0x20
    · exact Or.inl ⟨control, by simp [escapeChar, quote, backslash, others, control]⟩
    · refine Or.inr ⟨quote, backslash, by omega, ?_⟩
      simp [escapeChar, quote, backslash, others, control]

theorem codeUnit?_unitDigits : ∀ n < 0x20,
    codeUnit? (some (Nat.digitChar (n / 4096 % 16))) (some (Nat.digitChar (n / 256 % 16)))
      (some (Nat.digitChar (n / 16 % 16))) (some (Nat.digitChar (n % 16))) = some n := by
  decide

/-- A code unit that is no surrogate is a character on its own. -/
theorem joinPieces_unit {n : Nat} (small : n < 0x20) (pieces : List Piece) :
    joinPieces (.unit n :: pieces) = (joinPieces pieces).map (Char.ofNat n :: ·) := by
  have leading : isLeadingSurrogate n = false := by
    simp [isLeadingSurrogate]
    omega
  have trailing : isTrailingSurrogate n = false := by
    simp [isTrailingSurrogate]
    omega
  cases pieces with
  | nil => simp [joinPieces, leading, trailing]
  | cons piece pieces => cases piece <;> simp [joinPieces, leading, trailing]

/-- A printed character is read as one piece, which stands for the character. -/
theorem readPieces_escapeChar (c : Char) : ∃ piece,
    (∀ rest, readPieces ((escapeChar c).map some ++ rest) =
      (readPieces rest).map (consPiece piece)) ∧
    ∀ pieces, joinPieces (piece :: pieces) = (joinPieces pieces).map (c :: ·) := by
  rcases escapeChar_cases c with ⟨letter, simple, stands, printed⟩ | ⟨control, printed⟩ |
    ⟨quote, backslash, high, printed⟩
  · refine ⟨.char c, fun rest => ?_, fun _ => rfl⟩
    rw [printed, List.map_cons, List.map_singleton, List.cons_append, List.singleton_append,
      readPieces]
    · rw [stands]
    · intro _ _ _ _ _ same _
      exact simple (Option.some.inj same)
  · refine ⟨.unit c.toNat, fun rest => ?_, fun pieces => ?_⟩
    · rw [printed]
      show readPieces (some '\\' :: some 'u' :: some _ :: some _ :: some _ :: some _ :: rest) = _
      rw [readPieces, codeUnit?_unitDigits _ control]
    · rw [joinPieces_unit control, Char.ofNat_toNat]
  · refine ⟨.char c, fun rest => ?_, fun _ => rfl⟩
    rw [printed, List.map_singleton, List.singleton_append, readPieces, if_neg (by omega)]
    · exact quote
    · exact fun _ _ _ _ _ _ same => backslash same
    · exact fun _ _ _ same => backslash same

/-- The pieces of a printed string stand for its characters, and nothing else is read. -/
theorem readPieces_escaped (chars : List Char) (rest : List Letter) : ∃ pieces,
    readPieces ((chars.flatMap escapeChar).map some ++ some '"' :: rest) = some (pieces, rest) ∧
      joinPieces pieces = some chars := by
  induction chars with
  | nil => exact ⟨[], rfl, rfl⟩
  | cons c chars ih =>
    obtain ⟨pieces, read, joined⟩ := ih
    obtain ⟨piece, first, stands⟩ := readPieces_escapeChar c
    refine ⟨piece :: pieces, ?_, ?_⟩
    · rw [List.flatMap_cons, List.map_append, List.append_assoc, first, read]
      rfl
    · rw [stands, joined, Option.map_some]

/-- A printed string is read as it was. -/
theorem readString_escaped (s : String) (rest : List Letter) :
    readString ((s.toList.flatMap escapeChar).map some ++ some '"' :: rest) =
      some (some s, rest) := by
  obtain ⟨pieces, read, joined⟩ := readPieces_escaped s.toList rest
  rw [readString, read, Option.map_some, joined, Option.map_some, String.ofList_toList]

end Json

end MessageArgs
