import MessageArgs.Frame.Reader

/-!
# Transports

A `FrameCodec` turns envelopes into frames and back. A `Loopback` queues the frames that are sent
so that the same program receives them again, first in, first out; frames can also be put in by
hand. Closing it stops further sends and nothing else.
-/

namespace MessageArgs

/-- A way to turn envelopes into frames and back. -/
structure FrameCodec where
  encode : Envelope → Except CodecError ByteArray
  decode : ByteArray → Except CodecError Envelope

/-- Envelopes as JSON text. -/
def FrameCodec.json : FrameCodec where
  encode envelope := .ok envelope.toJson.toFrame
  decode := Envelope.ofFrame

/-- Why an envelope cannot be sent or received. -/
inductive TransportError
  /-- The transport was closed before the envelope was sent. -/
  | closed (member : String) (seq : UInt64)
  /-- The envelope does not become a frame, or the frame no envelope. -/
  | frame (error : CodecError)
deriving DecidableEq, Repr

/-- The text of a transport error. -/
def TransportError.message : TransportError → String
  | closed member seq =>
    String.join ["connection closed: cannot send ", member, " (seq ", toString seq.toNat, ")"]
  | frame error => String.join ["bad frame: ", error.message]

/-- A queue of frames. -/
structure Loopback where
  codec : FrameCodec
  frames : List ByteArray
  isClosed : Bool

namespace Loopback

/-- A transport with an empty queue. -/
def ofCodec (codec : FrameCodec) : Loopback :=
  ⟨codec, [], false⟩

/-- The number of frames that wait to be received. -/
def pending (transport : Loopback) : Nat :=
  transport.frames.length

/-- Stops further sends. -/
def close (transport : Loopback) : Loopback :=
  { transport with isClosed := true }

/-- Queues some bytes as if they had been sent. -/
def inject (transport : Loopback) (frame : ByteArray) : Loopback :=
  { transport with frames := transport.frames ++ [frame] }

/-- Sends an envelope. A send that fails queues nothing. -/
def send (transport : Loopback) (envelope : Envelope) : Except TransportError Unit × Loopback :=
  if transport.isClosed then (.error (.closed envelope.member envelope.seq), transport)
  else
    match transport.codec.encode envelope with
    | .error error => (.error (.frame error), transport)
    | .ok frame => (.ok (), transport.inject frame)

/-- Receives the next envelope, if one is pending. A frame that cannot be read is gone. -/
def receive (transport : Loopback) : Except TransportError (Option Envelope) × Loopback :=
  match transport.frames with
  | [] => (.ok none, transport)
  | frame :: frames =>
    let rest := { transport with frames := frames }
    match transport.codec.decode frame with
    | .error error => (.error (.frame error), rest)
    | .ok envelope => (.ok (some envelope), rest)

end Loopback

/-- What can go wrong with a message, by the layer that refuses it. -/
inductive MessageError
  | signature (error : SignatureError)
  | codec (error : CodecError)
  | transport (error : TransportError)
deriving DecidableEq, Repr

namespace MessageError

/-- The text of a message error. -/
def message : MessageError → String
  | signature error => error.message
  | codec error => error.message
  | transport error => error.message

/-- An outcome that a careful caller expects. -/
def isProbeFailure : MessageError → Bool
  | signature _ => true
  | codec error => error.isProbeFailure
  | transport _ => false

end MessageError

end MessageArgs
