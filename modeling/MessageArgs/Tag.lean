/-!
# The tag alphabet

One character per kind of value. `BasicType` holds the twelve types that have no parts; only they
may be dictionary keys. `Tag` adds the containers, the variant and the wildcard, which stands for
"whatever type the first item has" and is refused in the signatures that callers write.
-/

namespace MessageArgs

/-- A type without parts: numbers, truth values and the three kinds of text. -/
inductive BasicType
  | byte
  | bool
  | int16
  | uint16
  | int32
  | uint32
  | int64
  | uint64
  | double
  | string
  | objectPath
  | signature
deriving DecidableEq, Repr

namespace BasicType

/-- Every basic type, in alphabet order. -/
def all : List BasicType :=
  [byte, bool, int16, uint16, int32, uint32, int64, uint64, double, string, objectPath, signature]

/-- The character a basic type is written as. -/
def code : BasicType → Char
  | byte => 'y'
  | bool => 'b'
  | int16 => 'n'
  | uint16 => 'q'
  | int32 => 'i'
  | uint32 => 'u'
  | int64 => 'x'
  | uint64 => 't'
  | double => 'd'
  | string => 's'
  | objectPath => 'o'
  | signature => 'g'

/-- The basic type that a character stands for. -/
def ofCode? (c : Char) : Option BasicType :=
  all.find? fun type => type.code = c

/-- The element name of a basic type in XML renderings. -/
def name : BasicType → String
  | byte => "byte"
  | bool => "boolean"
  | int16 => "int16"
  | uint16 => "uint16"
  | int32 => "int32"
  | uint32 => "uint32"
  | int64 => "int64"
  | uint64 => "uint64"
  | double => "double"
  | string => "string"
  | objectPath => "object_path"
  | signature => "signature"

/-- The label of a basic type in frames. -/
def label : BasicType → String
  | byte => "Byte"
  | bool => "Bool"
  | int16 => "Int16"
  | uint16 => "UInt16"
  | int32 => "Int32"
  | uint32 => "UInt32"
  | int64 => "Int64"
  | uint64 => "UInt64"
  | double => "Double"
  | string => "String"
  | objectPath => "ObjectPath"
  | signature => "Signature"

/-- The three types whose payload is text. -/
def isText : BasicType → Bool
  | string | objectPath | signature => true
  | _ => false

end BasicType

/-- The kind of a type, told by the first character of its signature. -/
inductive Tag
  | basic (type : BasicType)
  | array
  | struct
  | dictEntry
  | variant
  | wildcard
deriving DecidableEq, Repr

namespace Tag

/-- Every tag, in alphabet order. -/
def all : List Tag :=
  BasicType.all.map basic ++ [array, struct, dictEntry, variant, wildcard]

/-- The character that opens a type of this kind. -/
def code : Tag → Char
  | basic type => type.code
  | array => 'a'
  | struct => '('
  | dictEntry => '{'
  | variant => 'v'
  | wildcard => '*'

/-- The tag that a character opens; a closing bracket opens none. -/
def ofCode? (c : Char) : Option Tag :=
  all.find? fun tag => tag.code = c

/-- The element name in XML renderings. -/
def name : Tag → String
  | basic type => type.name
  | array => "array"
  | struct => "struct"
  | dictEntry => "dict_entry"
  | variant => "variant"
  | wildcard => "wildcard"

/-- The label in frames. -/
def label : Tag → String
  | basic type => type.label
  | array => "Array"
  | struct => "Struct"
  | dictEntry => "DictEntry"
  | variant => "Variant"
  | wildcard => "Wildcard"

/-- The tag with a given label. -/
def ofLabel? (label : String) : Option Tag :=
  all.find? fun tag => tag.label = label

/-- Whether a tag is that of a basic type. -/
def isBasic : Tag → Bool
  | basic _ => true
  | _ => false

/-- Whether the payload of a tag is text. -/
def isText : Tag → Bool
  | basic type => type.isText
  | _ => false

end Tag

end MessageArgs
