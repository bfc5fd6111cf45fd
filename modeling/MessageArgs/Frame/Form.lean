import MessageArgs.Envelope
import MessageArgs.Json.Tree

/-!
# The written form of arguments

Arguments, envelopes, settings and tags as JSON. An argument is an object with its label under
`type` and its payload under `value`. An array states the signature of its items, so that an empty
one can be read back; structs and entries state none.
-/

namespace MessageArgs

/-- An argument's label and payload. -/
def labelled (label : String) (payload : Json) : Json :=
  .object [("type", .string label), ("value", payload)]

/-- The payload of a scalar. -/
def Scalar.toJson : Scalar → Json
  | .byte n => .number (.integer n.toNat)
  | .bool b => .bool b
  | .int16 n => .number (.integer n.toInt)
  | .uint16 n => .number (.integer n.toNat)
  | .int32 n => .number (.integer n.toInt)
  | .uint32 n => .number (.integer n.toNat)
  | .int64 n => .number (.integer n.toInt)
  | .uint64 n => .number (.integer n.toNat)
  | .double x => .number (.double x)
  | .string s => .string s
  | .objectPath s => .string s
  | .signature s => .string s.text

namespace Argument

/-- A scalar argument as JSON. -/
def scalarToJson (value : Scalar) : Json :=
  labelled value.type.label value.toJson

mutual

/-- An argument as JSON. -/
def toJson : Argument → Json
  | scalar value => scalarToJson value
  | array element _ items =>
    labelled Tag.array.label
      (.object [("element", .string element.text), ("items", .list (toJsonAll items))])
  | struct _ members =>
    labelled Tag.struct.label (.object [("members", .list (toJsonAll members))])
  | dictEntry _ key value =>
    labelled Tag.dictEntry.label (.object [("key", scalarToJson key), ("value", toJson value)])
  | variant content => labelled Tag.variant.label (toJson content)

/-- Some arguments as JSON. -/
def toJsonAll : List Argument → List Json
  | [] => []
  | arg :: args => toJson arg :: toJsonAll args

end

end Argument

/-- An envelope as JSON. -/
def Envelope.toJson (envelope : Envelope) : Json :=
  .object
    [("seq", .number (.integer envelope.seq.toNat)), ("member", .string envelope.member),
      ("args", .list (Argument.toJsonAll envelope.args))]

/-- A tag as JSON. -/
def Tag.toJson (tag : Tag) : Json :=
  .string tag.label

/-- The name of a policy in settings. -/
def DuplicateKeys.name : DuplicateKeys → String
  | .reject => "reject"
  | .lastWriteWins => "last_write_wins"

/-- Settings as JSON. -/
def CodecConfig.toJson (config : CodecConfig) : Json :=
  .object
    [("max_depth", .number (.integer config.maxDepth)),
      ("duplicate_keys", .string config.duplicateKeys.name),
      ("validate_object_paths", .bool config.validateObjectPaths)]

end MessageArgs
