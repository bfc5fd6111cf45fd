/-!
# Object paths

An object path is `/`, or one or more segments of letters, digits and underscores, each after a
`/`. Letters and digits are those of ASCII.
-/

namespace MessageArgs.ObjectPath

/-- A character of a segment. -/
def isSegmentChar (c : Char) : Bool :=
  c.isAlphanum || c = '_'

/-- Whether the rest of a path is one or more segments; `started` says that the current segment
already has a character. -/
def isSegments : Bool → List Char → Bool
  | started, [] => started
  | started, c :: rest =>
    if c = '/' then started && isSegments false rest
    else isSegmentChar c && isSegments true rest

/-- Whether a text is an object path. -/
def isValid (path : String) : Bool :=
  match path.toList with
  | [] => false
  | c :: rest => c = '/' && (rest.isEmpty || isSegments false rest)

end MessageArgs.ObjectPath
