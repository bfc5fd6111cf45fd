import MessageArgs.Json.Tree
import MessageArgs.Text.Letters

/-!
# Reading JSON

A reader that looks for something in particular may refuse a document for what it finds near the
beginning, although the text is not even well formed further on. So `Node` holds as much of a
document as can be read: a list or an object that is not read to its end is marked as open, and
nothing is read after it. Strings with undecodable bytes or lone surrogates have no content, which
matters only to those who ask for it; the same goes for numbers that are out of range.
-/

namespace MessageArgs.Json

open Text (Letter)

/-- As much of a JSON value as can be read. -/
inductive Node
  | null
  | bool (b : Bool)
  | number (text : NumberText)
  | string (content : Option String)
  | list (items : List Node) (closed : Bool)
  | object (fields : List (Option String × Node)) (closed : Bool)
  | broken
deriving Repr

/-- What is left of a text after blanks. -/
def skipBlanks : List Letter → List Letter
  | [] => []
  | letter :: rest =>
    if letter = some ' ' ∨ letter = some '\n' ∨ letter = some '\t' ∨ letter = some '\r' then
      skipBlanks rest
    else letter :: rest

/-- What is left of a text after a word. -/
def skipWord : List Char → List Letter → Option (List Letter)
  | [], letters => some letters
  | _, [] => none
  | c :: word, letter :: rest => if letter = some c then skipWord word rest else none

/-- The value of a letter as a decimal digit. -/
def decimalDigit? (letter : Letter) : Option Nat :=
  match letter with
  | some c => if '0' ≤ c ∧ c ≤ '9' then some (c.toNat - '0'.toNat) else none
  | none => none

/-- The value of a letter as a hexadecimal digit. -/
def hexDigit? (letter : Letter) : Option Nat :=
  match letter with
  | some c =>
    if '0' ≤ c ∧ c ≤ '9' then some (c.toNat - '0'.toNat)
    else if 'a' ≤ c ∧ c ≤ 'f' then some (c.toNat - 'a'.toNat + 10)
    else if 'A' ≤ c ∧ c ≤ 'F' then some (c.toNat - 'A'.toNat + 10)
    else none
  | none => none

/-- The code unit of four hexadecimal digits. -/
def codeUnit? (a b c d : Letter) : Option Nat := do
  return 4096 * (← hexDigit? a) + 256 * (← hexDigit? b) + 16 * (← hexDigit? c) + (← hexDigit? d)

/-- The decimal digits at the start of a text, and what is left. -/
def readDigits : List Letter → List Nat × List Letter
  | [] => ([], [])
  | letter :: rest =>
    match decimalDigit? letter with
    | some digit => let more := readDigits rest; (digit :: more.1, more.2)
    | none => ([], letter :: rest)

/-- The whole part of a number: no zero comes before another digit. -/
def readWhole (letters : List Letter) : Option (List Nat × List Letter) :=
  match readDigits letters with
  | ([], _) => none
  | (0 :: _ :: _, _) => none
  | digits => some digits

/-- The fraction of a number, if there is a point. -/
def readFraction (letters : List Letter) : Option (List Nat × List Letter) :=
  match letters with
  | some '.' :: rest =>
    match readDigits rest with
    | ([], _) => none
    | digits => some digits
  | letters => some ([], letters)

/-- The sign of an exponent; true stands for minus. -/
def readSign (letters : List Letter) : Bool × List Letter :=
  match letters with
  | some '+' :: rest => (false, rest)
  | some '-' :: rest => (true, rest)
  | letters => (false, letters)

/-- The digits of an exponent after its letter. -/
def readPower (letters : List Letter) : Option (Option Int × List Letter) :=
  let signed := readSign letters
  match readDigits signed.2 with
  | ([], _) => none
  | (digits, rest) =>
    some (some (if signed.1 then -(ofDigits digits : Int) else (ofDigits digits : Int)), rest)

/-- The exponent of a number, if there is one. -/
def readExponent (letters : List Letter) : Option (Option Int × List Letter) :=
  match letters with
  | some 'e' :: rest => readPower rest
  | some 'E' :: rest => readPower rest
  | letters => some (none, letters)

/-- A number without its sign. -/
def readMagnitude (negative : Bool) (letters : List Letter) :
    Option (NumberText × List Letter) := do
  let (whole, rest) ← readWhole letters
  let (fraction, rest) ← readFraction rest
  let (exponent, rest) ← readExponent rest
  return (⟨negative, whole, fraction, exponent⟩, rest)

/-- A number. -/
def readNumber (letters : List Letter) : Option (NumberText × List Letter) :=
  match letters with
  | some '-' :: rest => readMagnitude true rest
  | letters => readMagnitude false letters

/-- The character that a letter after a backslash stands for. -/
def unescape? (letter : Letter) : Option Char :=
  match letter with
  | some '"' => some '"'
  | some '\\' => some '\\'
  | some '/' => some '/'
  | some 'b' => some '\x08'
  | some 'f' => some '\x0c'
  | some 'n' => some '\n'
  | some 'r' => some '\r'
  | some 't' => some '\t'
  | _ => none

/-- The first of a pair of surrogates. -/
def isLeadingSurrogate (n : Nat) : Bool :=
  0xD800 ≤ n && n < 0xDC00

/-- The second of a pair of surrogates. -/
def isTrailingSurrogate (n : Nat) : Bool :=
  0xDC00 ≤ n && n < 0xE000

/-- The character of a pair of surrogates. -/
def joinSurrogates (leading trailing : Nat) : Char :=
  Char.ofNat (0x10000 + 0x400 * (leading - 0xD800) + (trailing - 0xDC00))

/-- A part of a string: a character, a code unit that is written as an escape, or a gap. -/
inductive Piece
  | char (c : Char)
  | unit (n : Nat)
  | gap
deriving DecidableEq, Repr

/-- A part in front of those that follow it. -/
def consPiece (piece : Piece) (read : List Piece × List Letter) : List Piece × List Letter :=
  (piece :: read.1, read.2)

/-- The parts of a string after its opening quote, and what is left after the closing one. -/
def readPieces : List Letter → Option (List Piece × List Letter)
  | [] => none
  | some '"' :: rest => some ([], rest)
  | some '\\' :: some 'u' :: a :: b :: c :: d :: rest =>
    match codeUnit? a b c d with
    | some n => (readPieces rest).map (consPiece (.unit n))
    | none => none
  | some '\\' :: letter :: rest =>
    match unescape? letter with
    | some c => (readPieces rest).map (consPiece (.char c))
    | none => none
  | none :: rest => (readPieces rest).map (consPiece .gap)
  | some c :: rest =>
    if c.toNat < 0x20 then none else (readPieces rest).map (consPiece (.char c))

/-- The characters of a string, unless it has gaps or surrogates that are no pair. -/
def joinPieces : List Piece → Option (List Char)
  | [] => some []
  | .gap :: _ => none
  | .char c :: rest => (joinPieces rest).map (c :: ·)
  | .unit first :: .unit second :: rest =>
    if isLeadingSurrogate first then
      if isTrailingSurrogate second then
        (joinPieces rest).map (joinSurrogates first second :: ·)
      else none
    else if isTrailingSurrogate first then none
    else (joinPieces (.unit second :: rest)).map (Char.ofNat first :: ·)
  | .unit n :: rest =>
    if isLeadingSurrogate n || isTrailingSurrogate n then none
    else (joinPieces rest).map (Char.ofNat n :: ·)

/-- The content of a string after its opening quote, and what is left. -/
def readString (letters : List Letter) : Option (Option String × List Letter) :=
  (readPieces letters).map fun read => ((joinPieces read.1).map String.ofList, read.2)

/-- A value that is a single word. -/
def readWord (word : List Char) (node : Node) (letters : List Letter) :
    Node × Option (List Letter) :=
  match skipWord word letters with
  | some rest => (node, some rest)
  | none => (.broken, none)

/-- A number as a value. -/
def readNumberNode (letters : List Letter) : Node × Option (List Letter) :=
  match readNumber letters with
  | some (text, rest) => (.number text, some rest)
  | none => (.broken, none)

mutual

/-- A value at the start of a text, and what is left if the value is read to its end. -/
def readNode : Nat → List Letter → Node × Option (List Letter)
  | 0, _ => (.broken, none)
  | fuel + 1, letters =>
    match skipBlanks letters with
    | some '"' :: rest =>
      match readString rest with
      | some (content, rest) => (.string content, some rest)
      | none => (.broken, none)
    | some '[' :: rest =>
      match skipBlanks rest with
      | some ']' :: rest => (.list [] true, some rest)
      | rest => let read := readItems fuel rest; (.list read.1 read.2.isSome, read.2)
    | some '{' :: rest =>
      match skipBlanks rest with
      | some '}' :: rest => (.object [] true, some rest)
      | rest => let read := readFields fuel rest; (.object read.1 read.2.isSome, read.2)
    | some 'n' :: rest => readWord ['u', 'l', 'l'] .null rest
    | some 't' :: rest => readWord ['r', 'u', 'e'] (.bool true) rest
    | some 'f' :: rest => readWord ['a', 'l', 's', 'e'] (.bool false) rest
    | letters => readNumberNode letters

/-- The items of a list up to its closing bracket. -/
def readItems : Nat → List Letter → List Node × Option (List Letter)
  | 0, _ => ([], none)
  | fuel + 1, letters =>
    match readNode fuel letters with
    | (.broken, _) => ([], none)
    | (item, none) => ([item], none)
    | (item, some rest) =>
      match skipBlanks rest with
      | some ']' :: rest => ([item], some rest)
      | some ',' :: rest => let more := readItems fuel rest; (item :: more.1, more.2)
      | _ => ([item], none)

/-- The fields of an object up to its closing bracket. -/
def readFields : Nat → List Letter → List (Option String × Node) × Option (List Letter)
  | 0, _ => ([], none)
  | fuel + 1, letters =>
    match skipBlanks letters with
    | some '"' :: rest =>
      match readString rest with
      | none => ([], none)
      | some (key, rest) =>
        match skipBlanks rest with
        | some ':' :: rest =>
          match readNode fuel rest with
          | (.broken, _) => ([(key, .broken)], none)
          | (value, none) => ([(key, value)], none)
          | (value, some rest) =>
            match skipBlanks rest with
            | some '}' :: rest => ([(key, value)], some rest)
            | some ',' :: rest => let more := readFields fuel rest; ((key, value) :: more.1, more.2)
            | _ => ([(key, value)], none)
        | _ => ([(key, .broken)], none)
    | _ => ([], none)

end

/-- A whole document: its value, and whether nothing but blanks follows it. -/
def readDocument (letters : List Letter) : Node × Bool :=
  let read := readNode (2 * letters.length + 2) letters
  (read.1, read.2.any fun rest => (skipBlanks rest).isEmpty)

/-- How deep lists and objects may nest where their contents are read. -/
def maxNesting : Nat := 127

mutual

/-- The value of a node in which nothing is missing or out of range, and that nests no deeper than
`room` levels. -/
def Node.toJson? (room : Nat) : Node → Option Json
  | .null => some .null
  | .bool b => some (.bool b)
  | .number text => text.value?.map .number
  | .string content => content.map .string
  | .list items closed =>
    if closed ∧ 0 < room then (toJsonItems? (room - 1) items).map .list else none
  | .object fields closed =>
    if closed ∧ 0 < room then (toJsonFields? (room - 1) fields).map .object else none
  | .broken => none

/-- The values of the items of a list. -/
def toJsonItems? (room : Nat) : List Node → Option (List Json)
  | [] => some []
  | item :: items => do
    let first ← item.toJson? room
    let rest ← toJsonItems? room items
    return first :: rest

/-- The values of the fields of an object, with their keys. -/
def toJsonFields? (room : Nat) : List (Option String × Node) → Option (List (String × Json))
  | [] => some []
  | (key, value) :: fields => do
    let key ← key
    let first ← value.toJson? room
    let rest ← toJsonFields? room fields
    return (key, first) :: rest

end

/-- The value of a document in which nothing is amiss. -/
def parse? (text : String) : Option Json :=
  let document := readDocument (text.toList.map some)
  if document.2 then document.1.toJson? maxNesting else none

end MessageArgs.Json
