import MessageArgs.Error
import MessageArgs.Value

/-!
# Building arguments

The checked constructors. Every argument that they return stores the signatures that its contents
have: an array that of its items, a struct that of its members in order, an entry that of its key
and value.
-/

namespace MessageArgs

/-- The scalar of a basic type that an atom stands for. Types must match exactly, except that a
single may stand for a double. A text in the place of a signature must be one that a caller may
write. -/
def Scalar.ofAtom (type : BasicType) (atom : Atom) : Except CodecError Scalar :=
  match type, atom with
  | .byte, .byte n => .ok (.byte n)
  | .bool, .bool b => .ok (.bool b)
  | .int16, .int16 n => .ok (.int16 n)
  | .uint16, .uint16 n => .ok (.uint16 n)
  | .int32, .int32 n => .ok (.int32 n)
  | .uint32, .uint32 n => .ok (.uint32 n)
  | .int64, .int64 n => .ok (.int64 n)
  | .uint64, .uint64 n => .ok (.uint64 n)
  | .double, .double x => .ok (.double x)
  | .double, .single x => .ok (.double x.widen)
  | .string, .string s => .ok (.string s)
  | .objectPath, .string s => .ok (.objectPath s)
  | .signature, .string s => (Signature.parse s).mapError .signature |>.map .signature
  | type, atom => .error (.typeMismatch type.code.toString atom.kind)

/-- The scalar of a basic type that a value stands for. -/
def Scalar.ofValue (type : BasicType) (value : Value) : Except CodecError Scalar :=
  match value with
  | .atom atom => Scalar.ofAtom type atom
  | other => .error (.typeMismatch type.code.toString other.kind)

namespace Argument

/-- The scalar argument that a value stands for under a tag. -/
def ofScalar (tag : Tag) (value : Value) : Except CodecError Argument :=
  match tag with
  | .basic type => (Scalar.ofValue type value).map scalar
  | tag => .error (.unsupported (.notBasic tag))

/-- The first argument that does not have a given signature, with its place. -/
def firstMismatch (text : String) (args : List Argument) : Option (Argument × Nat) :=
  args.zipIdx.find? fun indexed => !indexed.1.hasSignature text

/-- The array of some items that all have the signature `element`. -/
def ofItems (element : Signature) (items : List Argument) : Except BuildError Argument :=
  match Signature.arrayOf element with
  | .error error => .error (.signature error)
  | .ok signature =>
    match firstMismatch element.text items with
    | some (item, index) => .error (.shape (.itemType index item.signature.text element.text))
    | none => .ok (array element signature items)

/-- The array of some items that all have the signature of the first one. -/
def ofUniformItems (items : List Argument) : Except BuildError Argument :=
  match items with
  | [] => .error (.shape .nothingToInfer)
  | first :: rest => ofItems first.signature (first :: rest)

/-- The struct of some members. -/
def ofMembers (members : List Argument) : Except BuildError Argument :=
  if members.isEmpty then .error (.shape .emptyStruct)
  else
    match Signature.structOf (members.map signature) with
    | .error error => .error (.signature error)
    | .ok signature => .ok (struct signature members)

/-- The first member that does not have the signature asked for in its place. -/
def firstMemberMismatch (index : Nat) : List Signature → List Argument → Option ShapeFault
  | expected :: signatures, member :: members =>
    if member.hasSignature expected.text then firstMemberMismatch (index + 1) signatures members
    else some (.memberType index member.signature.text expected.text)
  | _, _ => none

/-- The struct of some members that should have the given signatures. -/
def ofMembersAs (signatures : List Signature) (members : List Argument) :
    Except BuildError Argument :=
  if signatures.length ≠ members.length then
    .error (.shape (.memberCount signatures.length members.length))
  else
    match firstMemberMismatch 0 signatures members with
    | some fault => .error (.shape fault)
    | none => ofMembers members

/-- The entry of a scalar key and a value. -/
def ofPair (key : Scalar) (value : Argument) : Except BuildError Argument :=
  match Signature.dictEntryOf (.ofType (.basic key.type)) value.signature with
  | .error error => .error (.signature error)
  | .ok signature => .ok (dictEntry signature key value)

/-- The entry of a key, which must be of a basic type, and a value. -/
def ofEntry (key value : Argument) : Except BuildError Argument :=
  match key with
  | scalar key => ofPair key value
  | other => .error (.shape (.compoundKey other.signature.text))

end Argument

end MessageArgs
