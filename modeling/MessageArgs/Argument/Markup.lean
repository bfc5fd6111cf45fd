import MessageArgs.Argument.Basic

/-!
# Arguments as XML

One element per argument, named for its tag, with its contents on lines of their own and indented
by two more spaces. An array states the signature of its items and a variant that of its content.
The four characters that could be taken for markup are written as entities, so that no payload can
imitate an element.
-/

namespace MessageArgs.Argument

/-- A character of a payload as it stands in XML. -/
def escapeChar (c : Char) : List Char :=
  if c = '&' then ['&', 'a', 'm', 'p', ';']
  else if c = '<' then ['&', 'l', 't', ';']
  else if c = '>' then ['&', 'g', 't', ';']
  else if c = '"' then ['&', 'q', 'u', 'o', 't', ';']
  else [c]

/-- A payload as it stands in XML. -/
def escape (text : String) : List Char :=
  text.toList.flatMap escapeChar

/-- The start of a line with some indentation. -/
def margin (indent : Nat) : List Char :=
  List.replicate indent ' '

/-- The start of an opening tag, up to its attributes. -/
def openTag (name : String) : List Char :=
  '<' :: name.toList

/-- An attribute that holds a signature. -/
def signatureAttribute (name : String) (value : Signature) : List Char :=
  ' ' :: (name.toList ++ ['=', '"'] ++ escape value.text ++ ['"'])

/-- A closing tag. -/
def closeTag (name : String) : List Char :=
  ['<', '/'] ++ name.toList ++ ['>']

/-- A closing tag on a line of its own. -/
def closeLine (indent : Nat) (name : String) : List Char :=
  '\n' :: (margin indent ++ closeTag name)

/-- The element of a scalar. -/
def scalarMarkup (indent : Nat) (value : Scalar) : List Char :=
  margin indent ++ openTag value.type.name ++ ['>'] ++ escape value.text
    ++ closeTag value.type.name

mutual

/-- The element of an argument; its first line is indented too. -/
def markup (indent : Nat) : Argument → List Char
  | scalar value => scalarMarkup indent value
  | array element _ items =>
    margin indent ++ openTag Tag.array.name ++ signatureAttribute "type_sig" element
      ++ if items.isEmpty then ['/', '>']
        else ['>'] ++ markupLines (indent + 2) items ++ closeLine indent Tag.array.name
  | struct _ members =>
    margin indent ++ openTag Tag.struct.name ++ ['>'] ++ markupLines (indent + 2) members
      ++ closeLine indent Tag.struct.name
  | dictEntry _ key value =>
    margin indent ++ openTag Tag.dictEntry.name ++ ['>', '\n']
      ++ scalarMarkup (indent + 2) key ++ ['\n'] ++ markup (indent + 2) value
      ++ closeLine indent Tag.dictEntry.name
  | variant content =>
    margin indent ++ openTag Tag.variant.name ++ signatureAttribute "signature" content.signature
      ++ ['>', '\n'] ++ markup (indent + 2) content ++ closeLine indent Tag.variant.name

/-- The elements of some arguments, each on lines of its own. -/
def markupLines (indent : Nat) : List Argument → List Char
  | [] => []
  | arg :: args => '\n' :: (markup indent arg ++ markupLines indent args)

end

/-- An argument as XML text. -/
def toXml (indent : Nat) (arg : Argument) : String :=
  String.ofList (markup indent arg)

end MessageArgs.Argument
