import MessageArgs.Argument.Markup
import MessageArgs.Decoding

/-!
# Argument lists

The arguments of a call while they are put together: a fixed number of slots, each of which holds a
complete argument or nothing. An operation that fails leaves no list behind, so the one it was
given is still as it was.
-/

namespace MessageArgs

/-- A fixed number of slots, and the settings under which they are filled and read. -/
structure ArgList where
  slots : List (Option Argument)
  config : CodecConfig
deriving Repr

namespace ArgList

/-- A list of empty slots. -/
def empty (length : Nat) (config : CodecConfig) : ArgList :=
  ⟨List.replicate length none, config⟩

/-- A list whose slots hold some arguments, with the standard settings. -/
def ofArguments (args : List Argument) : ArgList :=
  ⟨args.map some, .standard⟩

/-- The number of slots. -/
def length (list : ArgList) : Nat :=
  list.slots.length

/-- Refuses an index past the end. -/
def checkIndex (list : ArgList) (index : Nat) : Except CodecError Unit :=
  if index < list.length then .ok () else .error (.indexOutOfRange index list.length)

/-- The argument in a slot. -/
def slot (list : ArgList) (index : Nat) : Except CodecError Argument :=
  match list.slots[index]? with
  | none => .error (.indexOutOfRange index list.length)
  | some none => .error (.emptySlot index)
  | some (some argument) => .ok argument

/-- Puts something into a slot; also gives back what was there. -/
def exchange (list : ArgList) (index : Nat) (content : Option Argument) :
    Except CodecError (Option Argument × ArgList) :=
  match list.slots[index]? with
  | none => .error (.indexOutOfRange index list.length)
  | some old => .ok (old, { list with slots := list.slots.set index content })

/-- Puts an argument into a slot; also gives back what was there. -/
def replace (list : ArgList) (index : Nat) (argument : Argument) :
    Except CodecError (Option Argument × ArgList) :=
  list.exchange index (some argument)

/-- Empties a slot; also gives back what was there. -/
def clear (list : ArgList) (index : Nat) : Except CodecError (Option Argument × ArgList) :=
  list.exchange index none

/-- Encodes a value into a slot. -/
def set (list : ArgList) (index : Nat) (text : String) (value : Value) :
    Except CodecError ArgList := do
  list.checkIndex index
  let argument ← encode list.config text value
  return { list with slots := list.slots.set index (some argument) }

/-- Decodes a slot. -/
def get (list : ArgList) (index : Nat) (text : String) : Except CodecError Value := do
  let argument ← list.slot index
  decode list.config text argument

/-- Refuses a run of slots that does not lie within the list. -/
def checkRange (list : ArgList) (offset needed : Nat) : Except CodecError Unit :=
  if list.length < offset then .error (.indexOutOfRange offset list.length)
  else if list.length - offset < needed then .error (.truncated needed (list.length - offset))
  else .ok ()

/-- Puts some arguments into the slots from an index on. -/
def fill (slots : List (Option Argument)) (offset : Nat) (args : List Argument) :
    List (Option Argument) :=
  slots.take offset ++ args.map some ++ slots.drop (offset + args.length)

/-- Encodes one value for each complete type of a signature into the slots from an index on; also
gives the number of slots. All values are encoded before any slot is filled. -/
def setMany (list : ArgList) (offset : Nat) (text : String) (values : List Value) :
    Except CodecError (Nat × ArgList) := do
  let types ← (Grammar.caller.read text).mapError .signature
  list.checkRange offset types.length
  let args ← encodeAll list.config text values
  return (args.length, { list with slots := fill list.slots offset args })

/-- Decodes the slots from an index on, one for each complete type. -/
def getEach (list : ArgList) : Nat → List CompleteType → Except CodecError (List Value)
  | _, [] => .ok []
  | index, type :: types => do
    let argument ← list.slot index
    let value ← decode list.config type.text argument
    let rest ← list.getEach (index + 1) types
    return value :: rest

/-- Decodes one slot for each complete type of a signature, from an index on. -/
def getMany (list : ArgList) (offset : Nat) (text : String) : Except CodecError (List Value) := do
  let types ← (Grammar.caller.read text).mapError .signature
  list.checkRange offset types.length
  list.getEach offset types

/-- The arguments in some slots, the first of which has a given index. -/
def argumentsFrom : Nat → List (Option Argument) → Except CodecError (List Argument)
  | _, [] => .ok []
  | index, none :: _ => .error (.emptySlot index)
  | index, some argument :: slots => do
    let rest ← argumentsFrom (index + 1) slots
    return argument :: rest

/-- The arguments in the slots, all of which must be filled. -/
def arguments (list : ArgList) : Except CodecError (List Argument) :=
  argumentsFrom 0 list.slots

/-- The signatures of the slots, one after the other. -/
def signature (list : ArgList) : Except CodecError Signature := do
  let args ← list.arguments
  (Signature.concat (args.map Argument.signature)).mapError .signature

/-- The filled slots as XML, one after the other. -/
def toXml (list : ArgList) (indent : Nat) : String :=
  "\n".intercalate ((list.slots.filterMap id).map (Argument.toXml indent))

end ArgList

end MessageArgs
