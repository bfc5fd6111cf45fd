import MessageArgs.ArgList
import MessageArgs.Argument.Basic
import MessageArgs.Argument.Build
import MessageArgs.Argument.Markup
import MessageArgs.Command.Error
import MessageArgs.Command.Input
import MessageArgs.Command.Invocation
import MessageArgs.Command.Run
import MessageArgs.Config
import MessageArgs.Decoding
import MessageArgs.Encoding
import MessageArgs.Envelope
import MessageArgs.Error
import MessageArgs.Frame.Form
import MessageArgs.Frame.Reader
import MessageArgs.Frame.Record
import MessageArgs.Json.Canonical
import MessageArgs.Json.Document
import MessageArgs.Json.Number
import MessageArgs.Json.Tree
import MessageArgs.Main
import MessageArgs.Number.BinaryFormat
import MessageArgs.Number.Double
import MessageArgs.Number.Layout
import MessageArgs.Number.Shortest
import MessageArgs.ObjectPath
import MessageArgs.Proofs.Argument.Reachable
import MessageArgs.Proofs.Argument.WellFormed
import MessageArgs.Proofs.Decoding.Rules
import MessageArgs.Proofs.DuplicateKeys
import MessageArgs.Proofs.Encoding.Conforming
import MessageArgs.Proofs.Encoding.Rules
import MessageArgs.Proofs.Encoding.WellFormed
import MessageArgs.Proofs.Frame.WellFormed
import MessageArgs.Proofs.ObjectPath
import MessageArgs.Proofs.Outcome
import MessageArgs.Proofs.RoundTrip
import MessageArgs.Proofs.Signature.Composition
import MessageArgs.Proofs.Signature.Derivation
import MessageArgs.Proofs.Signature.Offsets
import MessageArgs.Proofs.Signature.Scanning
import MessageArgs.Proofs.Signature.Split
import MessageArgs.Scalar
import MessageArgs.Signature.Basic
import MessageArgs.Signature.CompleteType
import MessageArgs.Signature.Error
import MessageArgs.Signature.Grammar
import MessageArgs.Signature.Splitter
import MessageArgs.Tag
import MessageArgs.Text.Hidden
import MessageArgs.Text.Letters
import MessageArgs.Text.Outline
import MessageArgs.Text.Quoted
import MessageArgs.Transport
import MessageArgs.Typed
import MessageArgs.Value
import MessageArgs.Value.Order
import MessageArgs.Value.Outline
import MessageArgs.Proofs.Argument.Nodes
import MessageArgs.Proofs.Decoding.Outcome
import MessageArgs.Proofs.Encoding.RepeatedKeys
import MessageArgs.Proofs.Json.Numbers
import MessageArgs.Proofs.Json.Documents
import MessageArgs.Proofs.Frame.RoundTrip
import MessageArgs.Proofs.Encoding.Scalars
import MessageArgs.Proofs.Transport
import MessageArgs.Proofs.Transport.Fifo
import MessageArgs.Proofs.Relay
import MessageArgs.Proofs.ArgList.History
import MessageArgs.Proofs.ArgList.InPlace
import MessageArgs.Proofs.Argument.Depth
import MessageArgs.Proofs.Fingerprint
import MessageArgs.Proofs.Number.Widening
import MessageArgs.Proofs.Typed.Maps
import MessageArgs.Proofs.Value.Order
import MessageArgs.Proofs.Typed.Account
import MessageArgs.Proofs.Typed.Spelling
import MessageArgs.Proofs.Encoding.Depth
import MessageArgs.Proofs.Typed.Laws
import MessageArgs.Proofs.Typed.Acceptance
import MessageArgs.Proofs.Typed.RoundTrip
import MessageArgs.Proofs.Signature.Positions
import MessageArgs.Proofs.Signature.Accessors
import MessageArgs.Proofs.Signature.Blame
import MessageArgs.Proofs.ArgList.Bulk
import MessageArgs.Proofs.Decoding.Lookup
import MessageArgs.Proofs.Signature.Parts
import MessageArgs.Proofs.Concatenation
import MessageArgs.Proofs.Loosening
import MessageArgs.Proofs.Encoding.DepthLimit
import MessageArgs.Proofs.DuplicateKeys.Positions
import MessageArgs.Proofs.Argument.Markup
import MessageArgs.Proofs.Encoding.Faults
import MessageArgs.Proofs.Argument.Paths
import MessageArgs.Proofs.Command.Input
import MessageArgs.Proofs.Command.Translation
import MessageArgs.Proofs.Command.Variants
import MessageArgs.Proofs.DuplicateKeys.Equality
