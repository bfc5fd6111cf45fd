import MessageArgs.Text.Quoted

/-!
# What can be wrong with a signature

Every offset counts bytes from the start of the signature. All that a scanner has accepted before
it stops is ASCII, so an offset is also the number of characters accepted.
-/

namespace MessageArgs

/-- The two kinds of nesting with a limit; entries count with structs. -/
inductive Nesting
  | array
  | struct
deriving DecidableEq, Repr

/-- The word for a kind of nesting in messages. -/
def Nesting.word : Nesting → String
  | array => "array"
  | struct => "struct"

/-- Why a text is not the signature it should be. -/
inductive SignatureError
  /-- The text is longer than a signature may be. -/
  | tooLong (length max : Nat)
  /-- The character belongs to no type. -/
  | unknownTag (tag : Char) (offset : Nat)
  /-- The bracket is never closed. -/
  | unbalanced (opening : Char) (offset : Nat)
  /-- The bracket closes nothing. -/
  | unexpectedClose (closing : Char) (offset : Nat)
  /-- The text ends after the `a` of an array. -/
  | missingElement (offset : Nat)
  /-- The struct has no members. -/
  | emptyStruct (offset : Nat)
  /-- The entry is not the element of an array. -/
  | entryOutsideArray (offset : Nat)
  /-- The key of an entry is not of a basic type. -/
  | invalidKey (key : Char) (offset : Nat)
  /-- The entry does not hold exactly a key and a value. -/
  | invalidEntry (offset : Nat)
  /-- Arrays or structs are nested deeper than the grammar allows. -/
  | tooDeep (nesting : Nesting) (max offset : Nat)
  /-- The grammar in force has no wildcard. -/
  | wildcardNotAllowed (offset : Nat)
  /-- One complete type was needed, and the text holds another number of them. -/
  | notSingle (signature : String) (found : Nat)
deriving DecidableEq, Repr

namespace SignatureError

/-- The text of a signature error. -/
def message : SignatureError → String
  | tooLong length max =>
    String.join ["signature is ", toString length, " bytes long, the maximum is ", toString max]
  | unknownTag tag offset =>
    String.join ["unknown type code ", Text.quoteChar tag, " at offset ", toString offset]
  | unbalanced opening offset =>
    String.join ["unterminated ", Text.quoteChar opening, " opened at offset ", toString offset]
  | unexpectedClose closing offset =>
    String.join ["unexpected ", Text.quoteChar closing, " at offset ", toString offset]
  | missingElement offset =>
    String.join ["array at offset ", toString offset, " has no element type"]
  | emptyStruct offset => String.join ["empty struct at offset ", toString offset]
  | entryOutsideArray offset =>
    String.join ["dictionary entry at offset ", toString offset, " is not inside an array"]
  | invalidKey key offset =>
    String.join ["dictionary key ", Text.quoteChar key, " at offset ", toString offset,
      " is not a basic type"]
  | invalidEntry offset =>
    String.join ["dictionary entry at offset ", toString offset,
      " must hold exactly a key and a value"]
  | tooDeep nesting max offset =>
    String.join [nesting.word, " nesting exceeds ", toString max, " at offset ", toString offset]
  | wildcardNotAllowed offset =>
    String.join ["wildcard at offset ", toString offset, " is not allowed here"]
  | notSingle signature found =>
    String.join ["expected a single complete type, found ", toString found, " in ",
      Text.quote signature]

end SignatureError

end MessageArgs
