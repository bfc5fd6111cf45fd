/-!
# Outlines

A way to show a tree of values to a person: every part on a line of its own, indented by four
spaces under what it belongs to, and followed by a comma.
-/

namespace MessageArgs.Text

/-- A tree that can be shown as an outline. -/
inductive Outline
  | leaf (text : String)
  /-- A name with its parts in round brackets. -/
  | parts (name : String) (contents : List Outline)
  /-- A name with its fields in curly brackets. -/
  | fields (name : String) (contents : List (String × Outline))
  /-- Items in square brackets. -/
  | items (contents : List Outline)
deriving Repr

namespace Outline

/-- The start of a line. -/
def margin (indent : Nat) : String :=
  String.ofList (List.replicate indent ' ')

mutual

/-- The text of an outline; all lines but the first are indented. -/
def render (indent : Nat) : Outline → String
  | leaf text => text
  | parts name contents =>
    name ++ "(\n" ++ renderLines (indent + 4) contents ++ margin indent ++ ")"
  | fields name contents =>
    name ++ " \x7b\n" ++ renderFields (indent + 4) contents ++ margin indent ++ "\x7d"
  | items [] => "[]"
  | items (first :: rest) =>
    "[\n" ++ margin (indent + 4) ++ render (indent + 4) first ++ ",\n"
      ++ renderLines (indent + 4) rest ++ margin indent ++ "]"

/-- The parts of an outline, each on lines of its own. -/
def renderLines (indent : Nat) : List Outline → String
  | [] => ""
  | first :: rest => margin indent ++ render indent first ++ ",\n" ++ renderLines indent rest

/-- The fields of an outline, each on lines of its own. -/
def renderFields (indent : Nat) : List (String × Outline) → String
  | [] => ""
  | (name, content) :: rest =>
    margin indent ++ name ++ ": " ++ render indent content ++ ",\n" ++ renderFields indent rest

end

end Outline

end MessageArgs.Text
