import MessageArgs.Argument.Build
import MessageArgs.Config
import MessageArgs.ObjectPath

/-!
# Encoding

Native values become arguments under a signature. The recursion follows the complete types of the
signature: a basic type takes one kind of atom, a variant takes only an argument that is already
built, an array or struct takes a sequence and a dictionary takes a map. Any other slot than a
variant also takes an argument that is already built and has exactly the type of the slot. A
wildcard takes any argument, and an array of wildcards takes its type from its first item.

The depth of the result is compared with the configured limit once, when it is complete.
-/

namespace MessageArgs

namespace Encoding

/-- The error of a value that cannot stand in a slot. -/
def mismatch (type : CompleteType) (value : Value) : CodecError :=
  .typeMismatch type.text value.kind

/-- An argument that is already built stands in a slot of its own type. Other values are left to
the rule of the slot. -/
def keepArgument (type : CompleteType) (value : Value)
    (otherwise : Except CodecError Argument) : Except CodecError Argument :=
  match value with
  | .arg argument =>
    if argument.hasSignature type.text then .ok argument
    else .error (.typeMismatch type.text ("argument of signature " ++ argument.signature.text))
  | _ => otherwise

/-- A variant holds the argument it is given, under one variant layer. -/
def encodeVariant (value : Value) : Except CodecError Argument :=
  match value with
  | .arg (.variant content) => .ok (.variant content)
  | .arg argument => .ok (.variant argument)
  | other => .error (mismatch .variant other)

/-- A wildcard stands for the argument it is given. -/
def encodeWildcard (value : Value) : Except CodecError Argument :=
  match value with
  | .arg argument => .ok argument
  | other => .error (mismatch .wildcard other)

/-- A scalar, with object paths checked if the configuration says so. -/
def encodeScalar (config : CodecConfig) (type : BasicType) (value : Value) :
    Except CodecError Scalar :=
  match Scalar.ofValue type value with
  | .error error => .error error
  | .ok (.objectPath path) =>
    if config.validateObjectPaths && !ObjectPath.isValid path then .error (.invalidObjectPath path)
    else .ok (.objectPath path)
  | .ok scalar => .ok scalar

/-- The key of an entry: a scalar, built already or not. -/
def encodeKey (config : CodecConfig) (type : BasicType) (value : Value) :
    Except CodecError Scalar :=
  match value with
  | .arg (.scalar key) =>
    if key.type = type then .ok key
    else
      .error (.typeMismatch type.code.toString ("argument of signature " ++ key.type.code.toString))
  | .arg argument =>
    .error
      (.typeMismatch type.code.toString ("argument of signature " ++ argument.signature.text))
  | other => encodeScalar config type other

/-- The signature of what an argument holds, if it is a variant, else its own. -/
def contentSignature : Argument → Signature
  | .variant content => content.signature
  | argument => argument.signature

/-- The first of some signatures that differs from `expected`, with its place. -/
def firstDifference (expected : Signature) (index : Nat) : List Signature → Option ShapeFault
  | [] => none
  | found :: rest =>
    if found = expected then firstDifference expected (index + 1) rest
    else some (.contentType index found.text expected.text)

/-- The first variant fixes what the other variants of an array may hold. -/
def checkUniformContents (items : List Argument) : Except CodecError Unit :=
  match items.map contentSignature with
  | [] => .ok ()
  | first :: rest =>
    match firstDifference first 1 rest with
    | none => .ok ()
    | some fault => .error (.shapeMismatch fault)

/-- The array of some encoded items. -/
def buildArray (element : CompleteType) (items : List Argument) : Except CodecError Argument :=
  match element with
  | .wildcard => (Argument.ofUniformItems items).mapError .ofBuild
  | .variant => do
    checkUniformContents items
    (Argument.ofItems .variant items).mapError .ofBuild
  | element => do
    let signature ← (Grammar.stored.parse element.text).mapError .signature
    (Argument.ofItems signature items).mapError .ofBuild

/-- The dictionary of some encoded entries, tagged with the fingerprints of their keys. -/
def buildDictionary (config : CodecConfig) (entry : CompleteType)
    (keyed : List (String × Argument)) : Except CodecError Argument := do
  let entries ← config.duplicateKeys.apply keyed
  let signature ← (Grammar.stored.parse entry.text).mapError .signature
  (Argument.ofItems signature entries).mapError .ofBuild

/-- The struct of some encoded members. -/
def buildStruct (members : List Argument) : Except CodecError Argument :=
  (Argument.ofMembers members).mapError .ofBuild

mutual

/-- The argument that a value is in a slot of some type. -/
def encodeAs (config : CodecConfig) : CompleteType → Value → Except CodecError Argument
  | .variant, value => encodeVariant value
  | .wildcard, value => encodeWildcard value
  | .basic type, value =>
    keepArgument (.basic type) value ((encodeScalar config type value).map .scalar)
  | .array (.entry key element), value =>
    keepArgument (.array (.entry key element)) value
      (match value with
      | .map pairs => do
        let keyed ← pairs.mapM fun pair => do
          let name ← encodeKey config key pair.1
          let content ← encodeAs config element pair.2
          let entry ← (Argument.ofPair name content).mapError .ofBuild
          pure (name.fingerprint, entry)
        buildDictionary config (.entry key element) keyed
      | other => .error (mismatch (.array (.entry key element)) other))
  | .array element, value =>
    keepArgument (.array element) value
      (match value with
      | .seq items => do
        let built ← items.mapM fun item => encodeAs config element item
        buildArray element built
      | other => .error (mismatch (.array element) other))
  | .struct members, value =>
    keepArgument (.struct members) value
      (match value with
      | .seq items =>
        if members.length ≠ items.length then
          .error (.shapeMismatch
            (.structCount (CompleteType.struct members).text members.length items.length))
        else do
          let built ← encodeMembers config members items
          buildStruct built
      | other => .error (mismatch (.struct members) other))
  | .entry key element, value =>
    keepArgument (.entry key element) value
      (.error (.unsupported (.looseEntry (CompleteType.entry key element).text)))

/-- The arguments that some values are in slots of some types, as far as both lists go. -/
def encodeMembers (config : CodecConfig) :
    List CompleteType → List Value → Except CodecError (List Argument)
  | type :: types, value :: values => do
    let first ← encodeAs config type value
    let rest ← encodeMembers config types values
    pure (first :: rest)
  | _, _ => pure []

end

/-- Refuses an argument that nests deeper than the configuration allows. -/
def checkDepth (config : CodecConfig) (argument : Argument) : Except CodecError Argument :=
  if config.maxDepth < argument.depth then .error (.tooDeep argument.depth config.maxDepth)
  else .ok argument

/-- The argument that a value is under one complete type. -/
def encodeComplete (config : CodecConfig) (type : CompleteType) (value : Value) :
    Except CodecError Argument := do
  let argument ← encodeAs config type value
  checkDepth config argument

/-- The arguments that some values are under as many complete types. -/
def encodeEach (config : CodecConfig) :
    List CompleteType → List Value → Except CodecError (List Argument)
  | type :: types, value :: values => do
    let first ← encodeComplete config type value
    let rest ← encodeEach config types values
    pure (first :: rest)
  | _, _ => pure []

end Encoding

namespace Signature

/-- The complete type of a signature that must be exactly one. -/
def single (signature : Signature) : Except SignatureError CompleteType :=
  match signature.types with
  | [type] => .ok type
  | _ => .error (.notSingle signature.text signature.elementCount)

end Signature

/-- Encodes a value under a signature that is one complete type. -/
def encodeSignature (config : CodecConfig) (signature : Signature) (value : Value) :
    Except CodecError Argument := do
  let type ← signature.single.mapError .signature
  Encoding.encodeComplete config type value

/-- Encodes a value under the text of a signature that is one complete type. -/
def encode (config : CodecConfig) (text : String) (value : Value) : Except CodecError Argument := do
  let signature ← (Signature.parseSingle text).mapError .signature
  encodeSignature config signature value

/-- Encodes one value for each complete type of a compound signature. -/
def encodeAll (config : CodecConfig) (text : String) (values : List Value) :
    Except CodecError (List Argument) := do
  let types ← (Grammar.caller.read text).mapError .signature
  if types.length ≠ values.length then
    .error (.shapeMismatch (.elementCount text types.length values.length .values))
  else
    Encoding.encodeEach config types values

/-- Encodes an array of arguments that are already built; the first one gives the type. -/
def encodeInferred (config : CodecConfig) (values : List Value) : Except CodecError Argument := do
  let items ← values.mapM Encoding.encodeWildcard
  let argument ← Encoding.buildArray .wildcard items
  Encoding.checkDepth config argument

end MessageArgs
