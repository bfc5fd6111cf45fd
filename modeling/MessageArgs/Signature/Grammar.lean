import MessageArgs.Signature.CompleteType
import MessageArgs.Signature.Error

/-!
# Reading signatures

A grammar says which texts are signatures. The caller's grammar is

    signature ::= element*
    element   ::= basic | 'v' | 'a' element | 'a' entry | '(' element+ ')'
    entry     ::= '{' basic element '}'

and two switches widen it: a wildcard `*` wherever an element may stand, and an entry on its own at
the top level, as the element of a stored dictionary is written. A signature has at most
`maxLength` bytes, and no path through its tree passes more than `maxArrays` arrays or more than
`maxStructs` structs and entries counted together.

The reader takes one character at a time. A `Scan` is all it remembers: the types completed at the
top level and a stack with one `Frame` per construct still open, so a refusal is decided by the
state and the next character alone.
-/

namespace MessageArgs

/-- Longest signature, in bytes. -/
def maxLength : Nat := 255

/-- Deepest nesting of arrays within one signature. -/
def maxArrays : Nat := 32

/-- Deepest nesting of structs and entries within one signature. -/
def maxStructs : Nat := 32

/-- Which extensions of the caller's grammar are in force. -/
structure Grammar where
  /-- A `*` may stand for an element. -/
  wildcard : Bool
  /-- An entry may stand on its own at the top level. -/
  bareEntry : Bool
deriving DecidableEq, Repr

namespace Grammar

/-- The grammar of the signatures that callers write. -/
def caller : Grammar := ⟨false, false⟩

/-- The grammar of the signatures stored in arguments, where a dictionary's element stands alone. -/
def stored : Grammar := ⟨false, true⟩

/-- The same grammar with wildcards. -/
def withWildcard (grammar : Grammar) : Grammar := { grammar with wildcard := true }

/-- The grammar that accepts whatever another one accepts. -/
def widest : Grammar := stored.withWildcard

end Grammar

/-- A construct that is still open where an element is expected. -/
inductive Frame
  /-- An array that waits for its element. -/
  | array (start : Nat)
  /-- A struct with its members so far, the latest first. -/
  | struct (start : Nat) (members : List CompleteType)
  /-- An entry that waits for its value. -/
  | entry (start : Nat) (key : BasicType)
deriving Repr

/-- What has been read so far; `done` holds the completed types, the latest first. -/
inductive Scan
  /-- An element is expected, or the end of what the top of the stack opened. -/
  | awaitElement (stack : List Frame) (done : List CompleteType)
  /-- The key of the entry opened at `start` is expected. -/
  | awaitKey (start : Nat) (stack : List Frame) (done : List CompleteType)
  /-- The bracket that closes the entry opened at `start` is expected. -/
  | awaitClose (start : Nat) (key : BasicType) (value : CompleteType) (stack : List Frame)
      (done : List CompleteType)
deriving Repr

namespace Frame

/-- Whether a frame is that of an array. -/
def isArray : Frame → Bool
  | array _ => true
  | _ => false

/-- The number of arrays still open. -/
def arrays (stack : List Frame) : Nat :=
  stack.countP isArray

/-- The number of structs and entries still open. -/
def structs (stack : List Frame) : Nat :=
  stack.countP fun frame => !frame.isArray

end Frame

namespace Scan

/-- Nothing has been read. -/
def initial : Scan := .awaitElement [] []

/-- A type is complete: arrays that waited for it are complete with it, and what encloses them
takes it in. -/
def complete (type : CompleteType) : List Frame → List CompleteType → Scan
  | [], done => .awaitElement [] (type :: done)
  | .array _ :: stack, done => complete (.array type) stack done
  | .struct start members :: stack, done =>
    .awaitElement (.struct start (type :: members) :: stack) done
  | .entry start key :: stack, done => .awaitClose start key type stack done

/-- An array opens, if the limit allows it. -/
def openArray (offset : Nat) (stack : List Frame) (done : List CompleteType) :
    Except SignatureError Scan :=
  if Frame.arrays stack < maxArrays then
    .ok (.awaitElement (.array offset :: stack) done)
  else
    .error (.tooDeep .array maxArrays offset)

/-- A struct opens, if the limit allows it. -/
def openStruct (offset : Nat) (stack : List Frame) (done : List CompleteType) :
    Except SignatureError Scan :=
  if Frame.structs stack < maxStructs then
    .ok (.awaitElement (.struct offset [] :: stack) done)
  else
    .error (.tooDeep .struct maxStructs offset)

/-- An entry opens, if the limit that it shares with structs allows it. -/
def openEntry (offset : Nat) (stack : List Frame) (done : List CompleteType) :
    Except SignatureError Scan :=
  if Frame.structs stack < maxStructs then
    .ok (.awaitKey offset stack done)
  else
    .error (.tooDeep .struct maxStructs offset)

/-- The first character of an element. -/
def beginElement (grammar : Grammar) (offset : Nat) (c : Char) (stack : List Frame)
    (done : List CompleteType) : Except SignatureError Scan :=
  if c = 'a' then openArray offset stack done
  else if c = '(' then openStruct offset stack done
  else if c = '{' then .error (.entryOutsideArray offset)
  else if c = ')' ∨ c = '}' then .error (.unexpectedClose c offset)
  else if c = '*' then
    if grammar.wildcard then .ok (complete .wildcard stack done)
    else .error (.wildcardNotAllowed offset)
  else if c = 'v' then .ok (complete .variant stack done)
  else
    match BasicType.ofCode? c with
    | some type => .ok (complete (.basic type) stack done)
    | none => .error (.unknownTag c offset)

/-- A character where an element is expected. What the top of the stack opened decides which
brackets are welcome too. -/
def elementStep (grammar : Grammar) (offset : Nat) (c : Char) (stack : List Frame)
    (done : List CompleteType) : Except SignatureError Scan :=
  match stack with
  | [] =>
    if grammar.bareEntry ∧ c = '{' then openEntry offset [] done
    else beginElement grammar offset c [] done
  | .array start :: outer =>
    if c = '{' then openEntry offset (.array start :: outer) done
    else beginElement grammar offset c (.array start :: outer) done
  | .struct start members :: outer =>
    if c = ')' then
      if members.isEmpty then .error (.emptyStruct start)
      else .ok (complete (.struct members.reverse) outer done)
    else beginElement grammar offset c (.struct start members :: outer) done
  | .entry start key :: outer =>
    if c = '}' then .error (.invalidEntry start)
    else beginElement grammar offset c (.entry start key :: outer) done

/-- The key of an entry. -/
def keyStep (start offset : Nat) (c : Char) (stack : List Frame) (done : List CompleteType) :
    Except SignatureError Scan :=
  if c = '}' then .error (.invalidEntry start)
  else
    match BasicType.ofCode? c with
    | some key => .ok (.awaitElement (.entry start key :: stack) done)
    | none => .error (.invalidKey c offset)

/-- One character. -/
def step (grammar : Grammar) (offset : Nat) (c : Char) : Scan → Except SignatureError Scan
  | .awaitElement stack done => elementStep grammar offset c stack done
  | .awaitKey start stack done => keyStep start offset c stack done
  | .awaitClose start key value stack done =>
    if c = '}' then .ok (complete (.entry key value) stack done)
    else .error (.invalidEntry start)

/-- The end of the text: nothing may be open. -/
def finish : Scan → Except SignatureError (List CompleteType)
  | .awaitElement [] done => .ok done.reverse
  | .awaitElement (.array start :: _) _ => .error (.missingElement start)
  | .awaitElement (.struct start _ :: _) _ => .error (.unbalanced '(' start)
  | .awaitElement (.entry start _ :: _) _ => .error (.unbalanced '{' start)
  | .awaitKey start _ _ => .error (.unbalanced '{' start)
  | .awaitClose start _ _ _ _ => .error (.unbalanced '{' start)

/-- Reads on from a state to the end of the text. -/
def run (grammar : Grammar) : Scan → Nat → List Char → Except SignatureError (List CompleteType)
  | scan, _, [] => scan.finish
  | scan, offset, c :: rest =>
    match scan.step grammar offset c with
    | .ok next => run grammar next (offset + 1) rest
    | .error error => .error error

end Scan

namespace Grammar

/-- The complete types that a text spells, in order. -/
def read (grammar : Grammar) (text : String) : Except SignatureError (List CompleteType) :=
  if maxLength < text.utf8ByteSize then .error (.tooLong text.utf8ByteSize maxLength)
  else Scan.run grammar Scan.initial 0 text.toList

/-- The texts of the complete types that a text spells, in order. -/
def split (grammar : Grammar) (text : String) : Except SignatureError (List String) :=
  (grammar.read text).map fun types => types.map CompleteType.text

end Grammar

end MessageArgs
