import MessageArgs.Signature.Grammar
import MessageArgs.Signature.Splitter

/-!
# Signatures

A signature is the text of zero, one or more complete types. Texts become signatures through a
`Grammar` (`Grammar.parse`, `Signature.parse`, `Signature.parseSingle`) or by composition from
other signatures (`arrayOf`, `structOf`, `dictEntryOf`, `concat`). The accessors take a signature
apart by its brackets and never fail.
-/

namespace MessageArgs

/-- The text of a list of complete types. -/
structure Signature where
  text : String
deriving DecidableEq, Repr

/-- The signature that a text is under a grammar. -/
def Grammar.parse (grammar : Grammar) (text : String) : Except SignatureError Signature :=
  (grammar.read text).map fun _ => ⟨text⟩

namespace Signature

/-- The signature of no types at all. -/
def empty : Signature := ⟨""⟩

/-- The signature of a variant. -/
def variant : Signature := ⟨"v"⟩

/-- The signature that spells a complete type. -/
def ofType (type : CompleteType) : Signature := ⟨type.text⟩

/-- The signature of a type that is written as one character on its own. -/
def ofTag? : Tag → Option Signature
  | .basic type => some (ofType (.basic type))
  | .variant => some variant
  | _ => none

/-- Reads a signature that a caller wrote. -/
def parse (text : String) : Except SignatureError Signature :=
  Grammar.caller.parse text

/-- Reads a signature that a caller wrote and that must be one complete type. -/
def parseSingle (text : String) : Except SignatureError Signature :=
  match Grammar.caller.read text with
  | .error error => .error error
  | .ok types => if types.length = 1 then .ok ⟨text⟩ else .error (.notSingle text types.length)

/-- The complete types that a signature spells; every signature is spelled in the widest grammar. -/
def types (signature : Signature) : List CompleteType :=
  match Grammar.widest.read signature.text with
  | .ok types => types
  | .error _ => []

/-- Length in bytes. -/
def length (signature : Signature) : Nat :=
  signature.text.utf8ByteSize

/-- Whether a signature spells no type. -/
def isEmpty (signature : Signature) : Bool :=
  signature.text.toList.isEmpty

/-- The tag of the first type. -/
def firstTag? (signature : Signature) : Option Tag :=
  signature.text.toList.head?.bind Tag.ofCode?

/-- The signatures of the types of a text that is known to be a signature. -/
def ofPieces (text : List Char) : List Signature :=
  (Splitter.pieces text).map fun piece => ⟨String.ofList piece⟩

/-- The signatures of the types, in order. -/
def elements (signature : Signature) : List Signature :=
  ofPieces signature.text.toList

/-- The number of types. -/
def elementCount (signature : Signature) : Nat :=
  (Splitter.pieces signature.text.toList).length

/-- Whether there is exactly one type. -/
def isSingle (signature : Signature) : Bool :=
  !signature.isEmpty && (Splitter.first signature.text.toList).2.isEmpty

/-- The characters between the first and the last one. -/
def inner (signature : Signature) : List Char :=
  (signature.text.toList.drop 1).dropLast

/-- The element of a single array type. -/
def arrayElement? (signature : Signature) : Option Signature :=
  if signature.firstTag? = some .array && signature.isSingle then
    some ⟨String.ofList (signature.text.toList.drop 1)⟩
  else
    none

/-- The members of a single struct type, in order. -/
def structMembers? (signature : Signature) : Option (List Signature) :=
  if signature.firstTag? = some .struct && signature.isSingle then
    some (ofPieces signature.inner)
  else
    none

/-- The key and the value of a single entry. -/
def dictEntryParts? (signature : Signature) : Option (Signature × Signature) :=
  if signature.firstTag? = some .dictEntry && signature.isSingle then
    some (⟨String.ofList (signature.inner.take 1)⟩, ⟨String.ofList (signature.inner.drop 1)⟩)
  else
    none

/-- Whether a signature is one array of entries. -/
def isDictionary (signature : Signature) : Bool :=
  ['a', '{'].isPrefixOf signature.text.toList && signature.isSingle

/-- Refuses a signature that is not one complete type. -/
def requireSingle (signature : Signature) : Except SignatureError Unit :=
  if signature.isSingle then .ok ()
  else .error (.notSingle signature.text signature.elementCount)

/-- The array of one type; an entry makes it a dictionary. -/
def arrayOf (element : Signature) : Except SignatureError Signature := do
  element.requireSingle
  Grammar.caller.parse ("a" ++ element.text)

/-- The texts of several signatures in one. -/
def joined (parts : List Signature) : String :=
  String.join (parts.map text)

/-- The struct of some members. -/
def structOf (members : List Signature) : Except SignatureError Signature := do
  members.forM requireSingle
  Grammar.caller.parse ("(" ++ joined members ++ ")")

/-- The entry of a key and a value. -/
def dictEntryOf (key value : Signature) : Except SignatureError Signature := do
  value.requireSingle
  Grammar.stored.parse ("\x7b" ++ key.text ++ value.text ++ "\x7d")

/-- The types of several signatures, one after the other. -/
def concat (parts : List Signature) : Except SignatureError Signature :=
  Grammar.stored.parse (joined parts)

end Signature

end MessageArgs
