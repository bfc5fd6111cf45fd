import MessageArgs.Encoding

/-!
# Decoding

Arguments become native values under a signature. A variant is read as an argument, namely its
content. For any other type all variants around the argument are taken off first, and then its
signature must be the one asked for; nothing is converted. `dictLookup` reads a single value out of
a dictionary.
-/

namespace MessageArgs

namespace Decoding

/-- The error of an argument that does not have the type asked for. -/
def mismatch (type : CompleteType) (found : Argument) : CodecError :=
  .signatureMismatch type.text found.signature.text

/-- The content of a variant. -/
def decodeVariant (argument : Argument) : Except CodecError Value :=
  match argument with
  | .variant content => .ok (.arg content)
  | other => .error (mismatch .variant other)

/-- The native value of a scalar of some type. -/
def decodeBasic (type : BasicType) (argument : Argument) : Except CodecError Value :=
  match argument with
  | .scalar value =>
    if value.type = type then .ok (.atom value.toAtom)
    else .error (mismatch (.basic type) (.scalar value))
  | other => .error (mismatch (.basic type) other)

/-- Whether the items of an array may be read with some type. -/
def acceptsElement (element : CompleteType) (found : Signature) : Bool :=
  match element with
  | .wildcard => true
  | element => found.text = element.text

/-- Whether each member has the type asked for in its place; types with wildcards are left to the
reading of the member. -/
def acceptsMembers (types : List CompleteType) (members : List Argument) : Bool :=
  (types.zip members).all fun pair => pair.1.hasWildcard || pair.2.hasSignature pair.1.text

mutual

/-- The native value of an argument read with some type. -/
def decodeAs (config : CodecConfig) : CompleteType → Argument → Except CodecError Value
  | .wildcard, argument => .ok (.arg argument)
  | .variant, argument => decodeVariant argument
  | .basic type, argument => decodeBasic type argument.unwrapped
  | .array (.entry key element), argument =>
    match argument.unwrapped with
    | .array found signature items =>
      if found.text ≠ (CompleteType.entry key element).text then
        .error (mismatch (.array (.entry key element)) (.array found signature items))
      else do
        let keyed ← items.mapM fun item =>
          match item with
          | .dictEntry _ name content => do
            let first ← decodeBasic key (.scalar name)
            let second ← decodeAs config element content
            pure (name.fingerprint, (first, second))
          | other => .error (mismatch (.entry key element) other)
        let pairs ← config.duplicateKeys.apply keyed
        pure (.map pairs)
    | other => .error (mismatch (.array (.entry key element)) other)
  | .array element, argument =>
    match argument.unwrapped with
    | .array found signature items =>
      if acceptsElement element found then do
        let values ← items.mapM fun item => decodeAs config element item
        pure (.seq values)
      else .error (mismatch (.array element) (.array found signature items))
    | other => .error (mismatch (.array element) other)
  | .struct types, argument =>
    match argument.unwrapped with
    | .struct signature members =>
      if types.length = members.length ∧ acceptsMembers types members then do
        let values ← decodeMembers config types members
        pure (.seq values)
      else .error (mismatch (.struct types) (.struct signature members))
    | other => .error (mismatch (.struct types) other)
  | .entry key element, argument =>
    .error (mismatch (.entry key element) argument.unwrapped)

/-- The native values of some arguments read with some types, as far as both lists go. -/
def decodeMembers (config : CodecConfig) :
    List CompleteType → List Argument → Except CodecError (List Value)
  | type :: types, argument :: arguments => do
    let first ← decodeAs config type argument
    let rest ← decodeMembers config types arguments
    pure (first :: rest)
  | _, _ => pure []

end

/-- The last entry of a dictionary with some key. -/
def lastEntry? (key : Scalar) (items : List Argument) : Option Argument :=
  items.reverse.findSome? fun item =>
    match item with
    | .dictEntry _ name content => if name.same key then some content else none
    | _ => none

end Decoding

/-- Decodes an argument under a signature that is one complete type. -/
def decodeSignature (config : CodecConfig) (signature : Signature) (argument : Argument) :
    Except CodecError Value := do
  let type ← signature.single.mapError .signature
  Decoding.decodeAs config type argument

/-- Decodes an argument under the text of a signature that is one complete type. -/
def decode (config : CodecConfig) (text : String) (argument : Argument) :
    Except CodecError Value := do
  let signature ← (Signature.parseSingle text).mapError .signature
  decodeSignature config signature argument

/-- Decodes one argument for each complete type of a compound signature. -/
def decodeAll (config : CodecConfig) (text : String) (arguments : List Argument) :
    Except CodecError (List Value) := do
  let types ← (Grammar.caller.read text).mapError .signature
  if types.length ≠ arguments.length then
    .error (.shapeMismatch (.elementCount text types.length arguments.length .arguments))
  else
    Decoding.decodeMembers config types arguments

/-- Decodes the value under some key of a dictionary whose entries have the signature `text`. Of
repeated keys the last one counts. -/
def dictLookup (config : CodecConfig) (dict : Argument) (text : String) (key : Value) :
    Except CodecError Value := do
  let types ← (Grammar.stored.read text).mapError .signature
  match types with
  | [.entry keyType valueType] =>
    match dict.unwrapped with
    | .array element signature items =>
      if element.firstTag? ≠ some .dictEntry then .error (.notADictionary signature.text)
      else if element.text ≠ text then .error (.signatureMismatch text element.text)
      else do
        let name ← Scalar.ofValue keyType key
        match Decoding.lastEntry? name items with
        | some content => Decoding.decodeAs config valueType content
        | none => .error (.elementNotFound name.fingerprint)
    | _ => .error (.notADictionary dict.signature.text)
  | _ => .error (.unsupported (.notEntry text))

end MessageArgs
