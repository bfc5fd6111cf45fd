/-!
# Bytes as text

Bytes from outside need not be UTF-8. `letters` decodes them as far as they are: each well-formed
sequence is one character, and a byte that begins none is a gap. Gaps never hide an ASCII
character, so a reader can find its way past them.
-/

namespace MessageArgs.Text

/-- A character, or a byte that is part of none. -/
abbrev Letter := Option Char

/-- The letters from an index on; `fuel` bounds the number of letters. -/
def lettersFrom (bytes : ByteArray) : Nat → Nat → List Letter
  | 0, _ => []
  | fuel + 1, index =>
    if index < bytes.size then
      match bytes.utf8DecodeChar? index with
      | some c => some c :: lettersFrom bytes fuel (index + c.utf8Size)
      | none => none :: lettersFrom bytes fuel (index + 1)
    else
      []

/-- The letters of some bytes; there are no more of them than bytes. -/
def letters (bytes : ByteArray) : List Letter :=
  lettersFrom bytes bytes.size 0

end MessageArgs.Text
