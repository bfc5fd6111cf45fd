import MessageArgs.Signature.Error
import MessageArgs.Tag

/-!
# What can go wrong with arguments

One type for everything that building, encoding, decoding and looking up arguments can refuse. Its
parts are the causes: a `ShapeFault` for contents that do not fit together, a `BuildError` for a
container that cannot be built, a `ReadFault` for a frame that cannot be read. `CodecError.kind`
sorts the errors coarsely, and `CodecError.isProbeFailure` picks out those that a caller expects
when it tries several signatures on one argument.
-/

namespace MessageArgs

/-- What a compound signature was matched with. -/
inductive Supply
  | values
  | arguments
deriving DecidableEq, Repr

/-- The word for a supply in messages. -/
def Supply.word : Supply → String
  | values => "values"
  | arguments => "arguments"

/-- How contents fail to fit together. Signatures are given by their texts. -/
inductive ShapeFault
  /-- A struct without members. -/
  | emptyStruct
  /-- An array whose element type should come from its first item, and that has none. -/
  | nothingToInfer
  /-- A list of members of the wrong length. -/
  | memberCount (expected given : Nat)
  /-- A value for a struct with the wrong number of members. -/
  | structCount (signature : String) (expected given : Nat)
  /-- A value for a tuple with the wrong number of members. -/
  | tupleCount (signature : String) (expected given : Nat)
  /-- The wrong number of values or arguments for a compound signature. -/
  | elementCount (signature : String) (expected given : Nat) (supply : Supply)
  /-- A member of another type than the struct wants. -/
  | memberType (index : Nat) (found expected : String)
  /-- An item of another type than the array wants. -/
  | itemType (index : Nat) (found expected : String)
  /-- A variant with another content than the first one of its array. -/
  | contentType (index : Nat) (found expected : String)
  /-- A dictionary key that is not of a basic type. -/
  | compoundKey (found : String)
deriving DecidableEq, Repr

/-- The text of a shape fault. -/
def ShapeFault.message : ShapeFault → String
  | emptyStruct => "a struct needs at least one member"
  | nothingToInfer => "cannot infer the element type of an empty array"
  | memberCount expected given =>
    String.join ["struct has ", toString expected, " members, got ", toString given, " values"]
  | structCount signature expected given =>
    String.join ["struct ", signature, " has ", toString expected, " members, got ",
      toString given, " values"]
  | tupleCount signature expected given =>
    String.join [signature, " has ", toString expected, " members, got ", toString given, " values"]
  | elementCount signature expected given supply =>
    String.join ["signature ", Text.quote signature, " has ", toString expected,
      " elements, got ", toString given, " ", supply.word]
  | memberType index found expected =>
    String.join ["struct member ", toString index, " is ", found, ", expected ", expected]
  | itemType index found expected =>
    String.join ["array item ", toString index, " is ", found, ", expected ", expected]
  | contentType index found expected =>
    String.join ["variant item ", toString index, " holds ", found, ", expected ", expected]
  | compoundKey found => String.join ["dictionary key must be a basic type, got ", found]

/-- Why a well-formed signature cannot be used. -/
inductive UnsupportedUse
  /-- A scalar was asked for with a tag that is not that of a basic type. -/
  | notBasic (tag : Tag)
  /-- An entry outside an array. -/
  | looseEntry (signature : String)
  /-- A lookup with something else than an entry. -/
  | notEntry (signature : String)
deriving DecidableEq, Repr

/-- The text of an unsupported use. -/
def UnsupportedUse.message : UnsupportedUse → String
  | notBasic tag => String.join [tag.code.toString, " is not a scalar type"]
  | looseEntry signature => String.join [signature, " is only valid as an array element"]
  | notEntry signature => String.join [signature, " is not a dictionary entry"]

/-- Why a container cannot be built. -/
inductive BuildError
  /-- Its signature would not be well formed. -/
  | signature (error : SignatureError)
  /-- Its contents do not fit together. -/
  | shape (fault : ShapeFault)
deriving DecidableEq, Repr

/-- The text of a build error. -/
def BuildError.message : BuildError → String
  | signature error => String.join ["malformed signature: ", error.message]
  | shape fault => String.join ["shape mismatch: ", fault.message]

/-- Why the bytes of a frame are not what they should be. -/
inductive ReadFault
  /-- They are not well-formed text of the expected form. -/
  | malformed
  /-- A text in the place of a signature is none. -/
  | signature (error : SignatureError)
  /-- A container in them cannot be built. -/
  | build (error : BuildError)
deriving DecidableEq, Repr

/-- The text of a read fault. Nothing is said about where malformed bytes go wrong. -/
def ReadFault.message : ReadFault → String
  | malformed => "*"
  | signature error => error.message
  | build error => error.message

/-- Everything that building, encoding, decoding and looking up arguments can refuse. -/
inductive CodecError
  /-- The text of a signature is malformed. -/
  | signature (error : SignatureError)
  /-- The signature is well formed but cannot be used here. -/
  | unsupported (use : UnsupportedUse)
  /-- The value does not have the type that the signature asks for. -/
  | typeMismatch (expected found : String)
  /-- The contents do not fit together. -/
  | shapeMismatch (fault : ShapeFault)
  /-- The argument does not have the requested signature, even without its variants. -/
  | signatureMismatch (expected found : String)
  /-- The text is not an object path. -/
  | invalidObjectPath (path : String)
  /-- A dictionary holds a key twice. -/
  | duplicateKey (fingerprint : String)
  /-- The argument nests deeper than allowed. -/
  | tooDeep (depth max : Nat)
  /-- A compound signature needs more slots than there are. -/
  | truncated (needed available : Nat)
  /-- There is no slot with this index. -/
  | indexOutOfRange (index length : Nat)
  /-- The slot holds nothing. -/
  | emptySlot (index : Nat)
  /-- The argument that should be looked into is not a dictionary. -/
  | notADictionary (signature : String)
  /-- The dictionary has no such key. -/
  | elementNotFound (fingerprint : String)
  /-- A value could not be written as a frame. -/
  | encodeFailed
  /-- A frame could not be read. -/
  | decodeFailed (fault : ReadFault)
deriving DecidableEq, Repr

/-- A coarse classification of errors. -/
inductive ErrorKind
  | malformedSignature
  | unsupportedSignature
  | typeMismatch
  | shapeMismatch
  | signatureMismatch
  | limit
  | lookup
  | serialization
deriving DecidableEq, Repr

namespace CodecError

/-- A build error met while encoding. -/
def ofBuild : BuildError → CodecError
  | .signature error => signature error
  | .shape fault => shapeMismatch fault

/-- The text of an error. -/
def message : CodecError → String
  | signature error => String.join ["malformed signature: ", error.message]
  | unsupported use => String.join ["unsupported signature ", Text.quote use.message]
  | typeMismatch expected found =>
    String.join ["type mismatch: ", Text.quote expected, " cannot hold a ", found, " value"]
  | shapeMismatch fault => String.join ["shape mismatch: ", fault.message]
  | signatureMismatch expected found =>
    String.join ["signature mismatch: requested ", Text.quote expected, ", argument is ",
      Text.quote found]
  | invalidObjectPath path => String.join ["invalid object path ", Text.quote path]
  | duplicateKey fingerprint => String.join ["duplicate dictionary key ", fingerprint]
  | tooDeep depth max =>
    String.join ["argument nesting depth ", toString depth, " exceeds ", toString max]
  | truncated needed available =>
    String.join ["signature needs ", toString needed, " argument slots, only ",
      toString available, " exist"]
  | indexOutOfRange index length =>
    String.join ["index ", toString index, " out of range for ", toString length, " arguments"]
  | emptySlot index => String.join ["argument slot ", toString index, " is empty"]
  | notADictionary found => String.join ["not a dictionary: argument is ", Text.quote found]
  | elementNotFound fingerprint => String.join ["dictionary has no element with key ", fingerprint]
  | encodeFailed => "encode failed: *"
  | decodeFailed fault => String.join ["decode failed: ", fault.message]

/-- The kind of an error. A compound signature in the place of a single one is not malformed. -/
def kind : CodecError → ErrorKind
  | signature (.notSingle ..) => .unsupportedSignature
  | signature _ => .malformedSignature
  | unsupported _ => .unsupportedSignature
  | typeMismatch .. | invalidObjectPath _ => .typeMismatch
  | shapeMismatch _ | duplicateKey _ => .shapeMismatch
  | signatureMismatch .. | notADictionary _ => .signatureMismatch
  | tooDeep .. | truncated .. => .limit
  | indexOutOfRange .. | emptySlot _ | elementNotFound _ => .lookup
  | encodeFailed | decodeFailed _ => .serialization

/-- An outcome that a careful caller expects: signatures from outside that are malformed, a
signature tried on an argument that has another one, a key that is not there. -/
def isProbeFailure : CodecError → Bool
  | signature (.notSingle ..) => false
  | signature _ | signatureMismatch .. | notADictionary _ | elementNotFound _ => true
  | _ => false

end CodecError

end MessageArgs
