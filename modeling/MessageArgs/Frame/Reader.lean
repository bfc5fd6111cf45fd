import MessageArgs.Frame.Form
import MessageArgs.Frame.Record

/-!
# Reading arguments

Arguments are built with the checked constructors while they are read, so whatever is read is as
well formed as an argument built by hand. `room` counts how many lists and objects may still open;
it goes down by one with each, and a text that needs more is refused.

The label of an argument may come after its payload. Then the payload is kept, and it is read
twice: once without knowing what it is, which is stricter about what is passed over, and once for
its label. Inside a kept payload labels have more spellings: where an argument is a list, a number
stands for the tag with that place in the alphabet, and an object that names a tag may hold an
empty object.
-/

namespace MessageArgs.Reading

open Json (Node)

/-- Reads a signature; it may be a bare entry. -/
def signature (node : Node) : Reading Signature :=
  match string node with
  | .error fault => .error fault
  | .ok text => (Grammar.stored.parse text).mapError .signature

/-- Reads a tag. -/
def tag (source : Source) (room : Nat) (node : Node) : Reading Tag :=
  match name source room node with
  | .error fault => .error fault
  | .ok label => require (Tag.ofLabel? label)

/-- Reads a tag by its label alone. -/
def plainTag (node : Node) : Reading Tag :=
  match string node with
  | .error fault => .error fault
  | .ok label => require (Tag.ofLabel? label)

/-- Reads a tag by its place in the alphabet. -/
def placedTag (node : Node) : Reading Tag :=
  match natural 64 node with
  | .error fault => .error fault
  | .ok place => require Tag.all[place]?

/-- Reads the label of an argument. In a list it is a label alone, or a place if it was kept. -/
def labelOf (source : Source) (room : Nat) (whole node : Node) : Reading Tag :=
  match whole, node, source with
  | .list .., .number _, .kept => placedTag node
  | .list .., _, _ => plainTag node
  | _, _, _ => tag source room node

/-- Reads the payload of a scalar of some type. -/
def scalar (type : BasicType) (node : Node) : Reading Scalar :=
  match type with
  | .byte => (natural 8 node).map fun n => .byte (UInt8.ofNat n)
  | .bool => (bool node).map .bool
  | .int16 => (signed 16 node).map fun n => .int16 (Int16.ofInt n)
  | .uint16 => (natural 16 node).map fun n => .uint16 (UInt16.ofNat n)
  | .int32 => (signed 32 node).map fun n => .int32 (Int32.ofInt n)
  | .uint32 => (natural 32 node).map fun n => .uint32 (UInt32.ofNat n)
  | .int64 => (signed 64 node).map fun n => .int64 (Int64.ofInt n)
  | .uint64 => (natural 64 node).map fun n => .uint64 (UInt64.ofNat n)
  | .double => (double node).map .double
  | .string => (string node).map .string
  | .objectPath => (string node).map .objectPath
  | .signature => (signature node).map .signature

/-- What has been read of an argument. -/
inductive Labelling
  | nothing
  /-- The label, which says how to read the payload. -/
  | label (tag : Tag)
  /-- A payload that waits for its label. -/
  | payload (node : Node)
  | done (argument : Argument)

/-- Takes in a label; a payload that waits for it can be read now. -/
def takeLabel (label : Reading Tag) (read : Tag → Node → Reading Argument) :
    Labelling → Reading Labelling
  | .nothing => label.map .label
  | .payload content =>
    match label with
    | .error fault => .error fault
    | .ok tag => (read tag content).map .done
  | .label _ => malformed
  | .done _ => malformed

/-- Takes in a payload; without a label it must be complete and has to wait. -/
def takePayload (room : Nat) (read : Tag → Node → Reading Argument) (node : Node) :
    Labelling → Reading Labelling
  | .nothing => (require (node.toJson? room)).map fun _ => .payload node
  | .label label => (read label node).map .done
  | .payload _ => malformed
  | .done _ => malformed

/-- Takes in a field of the argument `whole`; `read` reads a payload by its label. -/
def labelStep (source : Source) (room : Nat) (read : Source → Tag → Node → Reading Argument)
    (whole : Node) (state : Labelling) (key : String) (node : Node) : Reading Labelling :=
  if key = "type" then takeLabel (labelOf source room whole node) (read .kept) state
  else if key = "value" then takePayload room (read source) node state
  else .ok state

/-- Reads an argument as a record of its label and payload. -/
def labelled (source : Source) (room : Nat) (read : Source → Tag → Node → Reading Argument)
    (node : Node) : Reading Argument :=
  record ["type", "value"] (labelStep source room read node) .nothing
    (fun state =>
      match state with
      | .done argument => .ok argument
      | _ => malformed)
    node

/-- Reads a payload by its label with one reader for each kind of container. -/
def payload (array struct entry variant : Node → Reading Argument) (tag : Tag) (node : Node) :
    Reading Argument :=
  match tag with
  | .basic type => (scalar type node).map .scalar
  | .array => array node
  | .struct => struct node
  | .dictEntry => entry node
  | .variant => variant node
  | .wildcard => malformed

mutual

/-- Reads an argument. -/
def argument : Source → Nat → Node → Reading Argument
  | _, 0, _ => malformed
  | source, room + 1, node =>
    labelled source room
      (fun source =>
        payload (fun node => arrayPayload source room node)
          (fun node => structPayload source room node) (fun node => entryPayload source room node)
          (fun node => (argument source room node).map .variant))
      node

/-- Reads a list of arguments. -/
def arguments : Source → Nat → Node → Reading (List Argument)
  | _, 0, _ => malformed
  | source, room + 1, node => items (fun item => argument source room item) node

/-- Reads the payload of an array. -/
def arrayPayload : Source → Nat → Node → Reading Argument
  | _, 0, _ => malformed
  | source, room + 1, node =>
    pair "element" "items" signature (fun node => arguments source room node)
      (fun element items => (Argument.ofItems element items).mapError .build) node

/-- Reads the payload of a struct. -/
def structPayload : Source → Nat → Node → Reading Argument
  | _, 0, _ => malformed
  | source, room + 1, node =>
    sole "members" (fun node => arguments source room node)
      (fun members => (Argument.ofMembers members).mapError .build) node

/-- Reads the payload of an entry. -/
def entryPayload : Source → Nat → Node → Reading Argument
  | _, 0, _ => malformed
  | source, room + 1, node =>
    pair "key" "value" (fun node => argument source room node)
      (fun node => argument source room node)
      (fun key value => (Argument.ofEntry key value).mapError .build) node

end

/-- What has been read of an envelope. -/
structure EnvelopeFields where
  seq : Option Nat := none
  member : Option String := none
  args : Option (List Argument) := none

/-- Reads an envelope; without `args` it has no arguments. -/
def envelope (room : Nat) : Node → Reading Envelope :=
  record ["seq", "member", "args"]
    (fun state key node =>
      if key = "seq" then
        (fillOnce state.seq (natural 64 node)).map fun slot => { state with seq := slot }
      else if key = "member" then
        (fillOnce state.member (string node)).map fun slot => { state with member := slot }
      else if key = "args" then
        (fillOnce state.args (arguments .text (room - 1) node)).map fun slot =>
          { state with args := slot }
      else .ok state)
    ({} : EnvelopeFields)
    fun state =>
      match state.seq, state.member with
      | some seq, some member => .ok ⟨UInt64.ofNat seq, member, state.args.getD []⟩
      | _, _ => malformed

/-- Reads the name of a policy. -/
def duplicateKeys (room : Nat) (node : Node) : Reading DuplicateKeys :=
  match name .text room node with
  | .error fault => .error fault
  | .ok text => require ([.reject, .lastWriteWins].find? fun policy => policy.name = text)

/-- What has been read of some settings. -/
structure ConfigFields where
  maxDepth : Option Nat := none
  duplicateKeys : Option DuplicateKeys := none
  validateObjectPaths : Option Bool := none

/-- Reads settings; those that are not given are the standard ones. -/
def config (room : Nat) : Node → Reading CodecConfig :=
  record ["max_depth", "duplicate_keys", "validate_object_paths"]
    (fun state key node =>
      if key = "max_depth" then
        (fillOnce state.maxDepth (natural 64 node)).map fun slot => { state with maxDepth := slot }
      else if key = "duplicate_keys" then
        (fillOnce state.duplicateKeys (duplicateKeys (room - 1) node)).map fun slot =>
          { state with duplicateKeys := slot }
      else if key = "validate_object_paths" then
        (fillOnce state.validateObjectPaths (bool node)).map fun slot =>
          { state with validateObjectPaths := slot }
      else .ok state)
    ({} : ConfigFields)
    fun state =>
      .ok
        { maxDepth := state.maxDepth.getD CodecConfig.standard.maxDepth
          duplicateKeys := state.duplicateKeys.getD CodecConfig.standard.duplicateKeys
          validateObjectPaths :=
            state.validateObjectPaths.getD CodecConfig.standard.validateObjectPaths }

end MessageArgs.Reading

namespace MessageArgs

open Json (Node)

/-- The bytes of a JSON value. -/
def Json.toFrame (json : Json) : ByteArray :=
  json.text.toUTF8

/-- Reads all of a frame. -/
def readFrame {α : Type} (read : Node → Reading α) (frame : ByteArray) : Except CodecError α :=
  let document := Json.readDocument (Text.letters frame)
  match read document.1 with
  | .error fault => .error (.decodeFailed fault)
  | .ok value => if document.2 then .ok value else .error (.decodeFailed .malformed)

/-- The argument in a frame. -/
def Argument.ofFrame (frame : ByteArray) : Except CodecError Argument :=
  readFrame (Reading.argument .text Json.maxNesting) frame

/-- The envelope in a frame. -/
def Envelope.ofFrame (frame : ByteArray) : Except CodecError Envelope :=
  readFrame (Reading.envelope Json.maxNesting) frame

/-- The settings in a frame. -/
def CodecConfig.ofFrame (frame : ByteArray) : Except CodecError CodecConfig :=
  readFrame (Reading.config Json.maxNesting) frame

/-- The tag in a frame. -/
def Tag.ofFrame (frame : ByteArray) : Except CodecError Tag :=
  readFrame (Reading.tag .text Json.maxNesting) frame

/-- The signature in a frame. -/
def Signature.ofFrame (frame : ByteArray) : Except CodecError Signature :=
  readFrame Reading.signature frame

end MessageArgs
