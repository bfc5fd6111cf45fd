import MessageArgs.Json.Number

/-!
# JSON values and how they are written

`Json` is a complete JSON value with the fields of its objects in the order in which they are
written. `Json.print` writes it without blanks. Doubles are written with their shortest digits and
always with a point or an exponent; infinities and NaN have no spelling and become `null`.
-/

namespace MessageArgs

/-- A JSON value. -/
inductive Json
  | null
  | bool (b : Bool)
  | number (n : Json.NumberValue)
  | string (s : String)
  | list (items : List Json)
  | object (fields : List (String × Json))
deriving Repr

namespace Json

open Number (Double)

/-- Doubles in JSON: powers of ten from -5 to 15 are positional, whole numbers end in `.0`, and
exponents are signed. -/
def doubleLayout : Number.Layout where
  positional := some (-5, 16)
  keepsPoint := true
  plus := "+"
  tie := .even

/-- The digits of a code unit, four of them. -/
def unitDigits (n : Nat) : List Char :=
  [Nat.digitChar (n / 4096 % 16), Nat.digitChar (n / 256 % 16), Nat.digitChar (n / 16 % 16),
    Nat.digitChar (n % 16)]

/-- A character as it stands in a JSON string. -/
def escapeChar (c : Char) : List Char :=
  if c = '"' then ['\\', '"']
  else if c = '\\' then ['\\', '\\']
  else if c = '\x08' then ['\\', 'b']
  else if c = '\t' then ['\\', 't']
  else if c = '\n' then ['\\', 'n']
  else if c = '\x0c' then ['\\', 'f']
  else if c = '\r' then ['\\', 'r']
  else if c.toNat < 0x20 then ['\\', 'u'] ++ unitDigits c.toNat
  else [c]

/-- A string in quotes. -/
def printString (s : String) : List Char :=
  ['"'] ++ s.toList.flatMap escapeChar ++ ['"']

/-- A number. -/
def printNumber : NumberValue → List Char
  | .integer n => (toString n).toList
  | .double x => if x.isFinite then (doubleLayout.write x).toList else ['n', 'u', 'l', 'l']

mutual

/-- The text of a value. -/
def print : Json → List Char
  | null => ['n', 'u', 'l', 'l']
  | bool true => ['t', 'r', 'u', 'e']
  | bool false => ['f', 'a', 'l', 's', 'e']
  | number n => printNumber n
  | string s => printString s
  | list [] => ['[', ']']
  | list (item :: items) => ['['] ++ print item ++ printItems items ++ [']']
  | object [] => ['{', '}']
  | object ((key, value) :: fields) =>
    ['{'] ++ printString key ++ [':'] ++ print value ++ printFields fields ++ ['}']

/-- The items of a list after the first one. -/
def printItems : List Json → List Char
  | [] => []
  | item :: items => [','] ++ print item ++ printItems items

/-- The fields of an object after the first one. -/
def printFields : List (String × Json) → List Char
  | [] => []
  | (key, value) :: fields =>
    [','] ++ printString key ++ [':'] ++ print value ++ printFields fields

end

/-- The text of a value as a string. -/
def text (json : Json) : String :=
  String.ofList json.print

end Json

end MessageArgs
