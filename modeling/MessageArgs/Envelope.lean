import MessageArgs.Decoding

/-!
# Envelopes

A call or a reply: a number that pairs replies with calls, the name of the method or signal, and
the arguments in order. The signature of an envelope is not stored; it is that of its arguments,
one after the other.
-/

namespace MessageArgs

/-- One call or reply. -/
structure Envelope where
  seq : UInt64
  member : String
  args : List Argument
deriving Repr

namespace Envelope

/-- The envelope of some values, encoded with the standard settings. -/
def ofValues (seq : UInt64) (member text : String) (values : List Value) :
    Except CodecError Envelope := do
  let args ← encodeAll .standard text values
  return ⟨seq, member, args⟩

/-- The signatures of the arguments, one after the other. -/
def signature (envelope : Envelope) : Except SignatureError Signature :=
  Signature.concat (envelope.args.map Argument.signature)

/-- The arguments as native values, decoded with the standard settings. -/
def values (envelope : Envelope) (text : String) : Except CodecError (List Value) :=
  decodeAll .standard text envelope.args

end Envelope

end MessageArgs
