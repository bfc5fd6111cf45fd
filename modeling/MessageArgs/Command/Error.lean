import MessageArgs.Error
import MessageArgs.Json.Tree

/-!
# What the command line reports

Why a command fails, and the texts that it prints then. A report may have a cause that is told
apart from its message: the reason why a signature is malformed.
-/

namespace MessageArgs.Command

/-- What a JSON value should have been. -/
inductive Wanted
  | unsigned
  | integer
  | bool
  | number
  | string
deriving DecidableEq, Repr

/-- The words for what was wanted. -/
def Wanted.words : Wanted → String
  | unsigned => "an unsigned integer"
  | integer => "an integer"
  | bool => "a boolean"
  | number => "a number"
  | string => "a string"

/-- Why a command fails. -/
inductive Failure
  /-- The settings cannot be read. -/
  | configUnreadable (path : String)
  /-- The settings are not what they should be. -/
  | configMalformed (path : String)
  /-- The signature to be split is none. -/
  | notSplit (text : String) (error : SignatureError)
  /-- The value to be encoded is not JSON. -/
  | valueMalformed
  /-- The argument to be decoded is none. -/
  | argumentMalformed
  /-- A JSON value is not of the kind that is wanted. -/
  | wrongKind (wanted : Wanted) (found : Json)
  /-- An integer does not fit its type. -/
  | outOfRange
  /-- A variant is not given as its signature and value. -/
  | variantForm
  /-- A dictionary is not given as an object. -/
  | needsObject (signature : String)
  /-- An array or struct is not given as a list. -/
  | needsList (signature : String)
  /-- A struct has another number of members. -/
  | memberCount (signature : String) (expected given : Nat)
  /-- The text of a key is not JSON. -/
  | keyMalformed (key : String) (type : BasicType)
  /-- A type that is only part of another one. -/
  | loosePart (signature : String)
  /-- A signature is not one complete type. -/
  | signature (error : SignatureError)
  /-- Encoding or decoding fails. -/
  | codec (error : CodecError)
deriving Repr

namespace Failure

/-- The message of a failure. -/
def message : Failure → String
  | configUnreadable path => String.join ["reading config ", path]
  | configMalformed path => String.join ["parsing config ", path]
  | notSplit text _ => String.join ["malformed signature ", Text.quote text]
  | valueMalformed => "value is not valid JSON"
  | argumentMalformed => "argument is not a valid argument tree"
  | wrongKind wanted found => String.join ["expected ", wanted.words, ", got ", found.text]
  | outOfRange => "integer out of range"
  | variantForm => "a variant needs \x7b\"signature\": ..., \"value\": ...\x7d"
  | needsObject text => String.join [text, " needs a JSON object"]
  | needsList text => String.join [text, " needs a JSON array"]
  | memberCount text expected given =>
    String.join [text, " has ", toString expected, " members, got ", toString given, " values"]
  | keyMalformed key type =>
    String.join ["dictionary key ", Text.quote key, " is not a ", type.code.toString]
  | loosePart text => String.join [text, " cannot be given on its own"]
  | signature error => error.message
  | codec error => error.message

/-- The cause of a failure, where it is told apart from the message. -/
def cause? : Failure → Option String
  | notSplit _ error => some error.message
  | codec (.signature error) => some error.message
  | _ => none

end Failure

end MessageArgs.Command
