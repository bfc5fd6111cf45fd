import MessageArgs.Scalar

/-!
# Arguments

An argument is a tree of typed values that carries its own types. Containers store their
signatures, so `signature` never computes one. The checked constructors in
`MessageArgs.Argument.Build` keep the stored signatures in step with the contents.
-/

namespace MessageArgs

/-- One typed value, with everything inside it. -/
inductive Argument
  | scalar (value : Scalar)
  /-- Items that all have the signature `element`; the signature of the array is stored too. -/
  | array (element signature : Signature) (items : List Argument)
  | struct (signature : Signature) (members : List Argument)
  /-- One key and value of a dictionary. -/
  | dictEntry (signature : Signature) (key : Scalar) (value : Argument)
  | variant (content : Argument)
deriving Repr

namespace Argument

/-- The tag of an argument. -/
def tag : Argument → Tag
  | scalar value => .basic value.type
  | array .. => .array
  | struct .. => .struct
  | dictEntry .. => .dictEntry
  | variant _ => .variant

/-- The signature of an argument; that of a variant is `v`, whatever it holds. -/
def signature : Argument → Signature
  | scalar value => .ofType (.basic value.type)
  | array _ signature _ => signature
  | struct signature _ => signature
  | dictEntry signature _ _ => signature
  | variant _ => .variant

/-- Whether an argument has a given signature. Nothing is spelled out for that: containers store
theirs, and that of any other argument is the character of its tag. -/
def hasSignature (arg : Argument) (text : String) : Bool :=
  match arg with
  | array _ signature _ => signature.text = text
  | struct signature _ => signature.text = text
  | dictEntry signature _ _ => signature.text = text
  | leaf => text.toList = [leaf.tag.code]

/-- An argument without the variants around it. -/
def unwrapped : Argument → Argument
  | variant content => content.unwrapped
  | arg => arg

mutual

/-- How deep containers nest, variants included. -/
def depth : Argument → Nat
  | scalar _ => 0
  | array _ _ items => depthOfAll items + 1
  | struct _ members => depthOfAll members + 1
  | dictEntry _ _ value => depth value + 1
  | variant content => depth content + 1

/-- The greatest depth in a list. -/
def depthOfAll : List Argument → Nat
  | [] => 0
  | arg :: args => max (depth arg) (depthOfAll args)

end

mutual

/-- Equality of arguments, with doubles compared as numbers. -/
def same : Argument → Argument → Bool
  | scalar a, scalar b => a.same b
  | array element signature items, array element' signature' items' =>
    element = element' && signature = signature' && sameAll items items'
  | struct signature members, struct signature' members' =>
    signature = signature' && sameAll members members'
  | dictEntry signature key value, dictEntry signature' key' value' =>
    signature = signature' && key.same key' && same value value'
  | variant content, variant content' => same content content'
  | _, _ => false

/-- Equality of lists of arguments, item by item. -/
def sameAll : List Argument → List Argument → Bool
  | [], [] => true
  | a :: as, b :: bs => same a b && sameAll as bs
  | _, _ => false

end

end Argument

end MessageArgs
