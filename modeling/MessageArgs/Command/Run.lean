import MessageArgs.Argument.Markup
import MessageArgs.Command.Invocation
import MessageArgs.Command.Input
import MessageArgs.Frame.Reader
import MessageArgs.Value.Outline

/-!
# Running commands

What a command line prints. The settings come first: if they cannot be read, nothing else is looked
at. `Invocation.run` is given the contents of the file with the settings, if it can be read.
-/

namespace MessageArgs.Command

/-- The settings that a command runs under. -/
def Invocation.settings (invocation : Invocation) (contents : Option String) :
    Except Failure CodecConfig :=
  match invocation.config with
  | none => .ok .standard
  | some path =>
    match contents with
    | none => .error (.configUnreadable path)
    | some text =>
      match CodecConfig.ofFrame text.toUTF8 with
      | .error _ => .error (.configMalformed path)
      | .ok config => .ok config

/-- Some lines, each with its end. -/
def lines (texts : List String) : String :=
  String.join (texts.map fun text => text ++ "\n")

/-- Lists the complete types of a signature. -/
def split (text : String) : Except Failure String :=
  match Grammar.caller.split text with
  | .error error => .error (.notSplit text error)
  | .ok elements => .ok (lines elements)

/-- The argument that a JSON text stands for under a signature. -/
def argumentOf (config : CodecConfig) (text value : String) : Except Failure Argument :=
  match Json.parse? value with
  | none => .error .valueMalformed
  | some json => do
    let signature ← (Signature.parseSingle text).mapError .signature
    let type ← signature.single.mapError .signature
    let native ← valueOf config json.canonical type
    (encodeSignature config signature native).mapError .codec

/-- Encodes a value. -/
def encode (config : CodecConfig) (text value : String) (json : Bool) : Except Failure String := do
  let argument ← argumentOf config text value
  return lines [if json then argument.toJson.text else argument.toXml 0]

/-- Decodes an argument. -/
def decode (config : CodecConfig) (text argument : String) : Except Failure String :=
  match Argument.ofFrame argument.toUTF8 with
  | .error _ => .error .argumentMalformed
  | .ok argument => do
    let value ← (MessageArgs.decode config text argument).mapError .codec
    return lines [value.outline.render 0]

/-- The name and version of the program. -/
def version : String := "sigtool 0.1.0"

/-- What a command prints. -/
def Invocation.run (invocation : Invocation) (contents : Option String) :
    Except Failure String := do
  let config ← invocation.settings contents
  match invocation.action with
  | .split text => split text
  | .encode text value json => encode config text value json
  | .decode text argument => decode config text argument
  | .version => return lines [version]

end MessageArgs.Command
