import MessageArgs.Text.Hidden

/-!
# Quoted text

How a message shows a piece of the caller's text: between quotes, on one line, and so that every
character can be told apart. `Mark.double` quotes strings and `Mark.single` quotes single
characters; only the quote in use is escaped.
-/

namespace MessageArgs.Text

/-- The quote that surrounds a text. -/
inductive Mark
  | single
  | double
deriving DecidableEq, Repr

/-- The character a quote is written with. -/
def Mark.char : Mark → Char
  | .single => '\''
  | .double => '"'

/-- Digits of a code point in hexadecimal, lower case, without leading zeros. -/
def hexDigits (n : Nat) : List Char :=
  Nat.toDigits 16 n

/-- One character as it stands inside quotes. -/
def escapeChar (mark : Mark) (c : Char) : List Char :=
  if c = '\x00' then ['\\', '0']
  else if c = '\t' then ['\\', 't']
  else if c = '\r' then ['\\', 'r']
  else if c = '\n' then ['\\', 'n']
  else if c = '\\' then ['\\', '\\']
  else if c = mark.char then ['\\', c]
  else if isHidden c then ['\\', 'u', '\x7b'] ++ hexDigits c.toNat ++ ['\x7d']
  else [c]

/-- A string between double quotes. -/
def quote (text : String) : String :=
  String.ofList (['"'] ++ text.toList.flatMap (escapeChar .double) ++ ['"'])

/-- A character between single quotes. -/
def quoteChar (c : Char) : String :=
  String.ofList (['\''] ++ escapeChar .single c ++ ['\''])

end MessageArgs.Text
