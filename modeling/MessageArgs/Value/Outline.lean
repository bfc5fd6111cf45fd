import MessageArgs.Text.Outline
import MessageArgs.Text.Quoted
import MessageArgs.Value

/-!
# Values as outlines

How decoded values are shown to a person. Every value names its kind; containers inside arguments
also show the signatures that they store.
-/

namespace MessageArgs

open Text (Outline)

/-- Doubles in outlines: powers of ten from -4 to 15 are positional, and whole numbers end in
`.0`. -/
def outlineLayout : Number.Layout where
  positional := some (-4, 16)
  keepsPoint := true
  plus := ""
  tie := .up

/-- A kind with a single text. -/
def Text.Outline.single (name text : String) : Outline :=
  .parts name [.leaf text]

/-- A signature as an outline. -/
def Signature.outline (signature : Signature) : Outline :=
  .single "Signature" (Text.quote signature.text)

/-- The word for a truth value. -/
def boolWord (b : Bool) : String :=
  if b then "true" else "false"

/-- A scalar as an outline. -/
def Scalar.outline (scalar : Scalar) : Outline :=
  match scalar with
  | .byte n => .single "Byte" (toString n.toNat)
  | .bool b => .single "Bool" (boolWord b)
  | .int16 n => .single "Int16" (toString n.toInt)
  | .uint16 n => .single "UInt16" (toString n.toNat)
  | .int32 n => .single "Int32" (toString n.toInt)
  | .uint32 n => .single "UInt32" (toString n.toNat)
  | .int64 n => .single "Int64" (toString n.toInt)
  | .uint64 n => .single "UInt64" (toString n.toNat)
  | .double x => .single "Double" (outlineLayout.write x)
  | .string s => .single "String" (Text.quote s)
  | .objectPath s => .single "ObjectPath" (Text.quote s)
  | .signature s => .parts "Signature" [s.outline]

namespace Argument

mutual

/-- An argument as an outline. -/
def outline : Argument → Outline
  | scalar value => value.outline
  | array element signature items =>
    .parts "Array"
      [.fields "ArrayArg"
        [("element", element.outline), ("signature", signature.outline),
          ("items", .items (outlineAll items))]]
  | struct signature members =>
    .parts "Struct"
      [.fields "StructArg"
        [("signature", signature.outline), ("members", .items (outlineAll members))]]
  | dictEntry signature key value =>
    .parts "DictEntry"
      [.fields "DictEntry"
        [("signature", signature.outline), ("key", key.outline), ("value", outline value)]]
  | variant content => .parts "Variant" [outline content]

/-- Some arguments as outlines. -/
def outlineAll : List Argument → List Outline
  | [] => []
  | arg :: args => outline arg :: outlineAll args

end

end Argument

/-- An atom as an outline. -/
def Atom.outline (atom : Atom) : Outline :=
  match atom with
  | .byte n => .single "Byte" (toString n.toNat)
  | .bool b => .single "Bool" (boolWord b)
  | .int16 n => .single "Int16" (toString n.toInt)
  | .uint16 n => .single "UInt16" (toString n.toNat)
  | .int32 n => .single "Int32" (toString n.toInt)
  | .uint32 n => .single "UInt32" (toString n.toNat)
  | .int64 n => .single "Int64" (toString n.toInt)
  | .uint64 n => .single "UInt64" (toString n.toNat)
  | .single x => .single "Float" (outlineLayout.write x.widen)
  | .double x => .single "Double" (outlineLayout.write x)
  | .string s => .single "Str" (Text.quote s)

namespace Value

mutual

/-- A value as an outline. -/
def outline : Value → Outline
  | atom value => value.outline
  | seq items => .parts "Seq" [.items (outlineAll items)]
  | map pairs => .parts "Map" [.items (outlinePairs pairs)]
  | arg argument => .parts "Arg" [argument.outline]

/-- Some values as outlines. -/
def outlineAll : List Value → List Outline
  | [] => []
  | value :: values => outline value :: outlineAll values

/-- Some pairs as outlines. -/
def outlinePairs : List (Value × Value) → List Outline
  | [] => []
  | (key, value) :: pairs => .parts "" [outline key, outline value] :: outlinePairs pairs

end

end Value

end MessageArgs
