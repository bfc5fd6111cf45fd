import MessageArgs.Tag

/-!
# Complete types

The tree that a signature spells. `chars` is its spelling, one character per node plus a closing
bracket for each struct and entry. An entry stands for one key and value of a dictionary and, on
its own, only for the element of an array of entries.
-/

namespace MessageArgs

/-- One complete type. -/
inductive CompleteType
  | basic (type : BasicType)
  | variant
  | wildcard
  | array (element : CompleteType)
  | struct (members : List CompleteType)
  | entry (key : BasicType) (value : CompleteType)
deriving Repr

namespace CompleteType

/-- The tag that opens a type. -/
def tag : CompleteType → Tag
  | basic type => .basic type
  | variant => .variant
  | wildcard => .wildcard
  | array _ => .array
  | struct _ => .struct
  | entry _ _ => .dictEntry

mutual

/-- The spelling of a type. -/
def chars : CompleteType → List Char
  | basic type => [type.code]
  | variant => ['v']
  | wildcard => ['*']
  | array element => 'a' :: chars element
  | struct members => '(' :: (charsAll members ++ [')'])
  | entry key value => '{' :: key.code :: (chars value ++ ['}'])

/-- The spellings of several types, one after the other. -/
def charsAll : List CompleteType → List Char
  | [] => []
  | type :: types => chars type ++ charsAll types

end

/-- The spelling of a type as a string. -/
def text (type : CompleteType) : String :=
  String.ofList type.chars

mutual

/-- Whether a type holds the wildcard anywhere. -/
def hasWildcard : CompleteType → Bool
  | basic _ | variant => false
  | wildcard => true
  | array element => hasWildcard element
  | struct members => hasWildcardAny members
  | entry _ value => hasWildcard value

/-- Whether one of several types holds the wildcard. -/
def hasWildcardAny : List CompleteType → Bool
  | [] => false
  | type :: types => hasWildcard type || hasWildcardAny types

end

end CompleteType

end MessageArgs
