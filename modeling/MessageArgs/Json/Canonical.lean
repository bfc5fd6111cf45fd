import MessageArgs.Json.Tree

/-!
# Canonical objects

Where the order of fields and repetitions do not matter, the fields of an object are kept in the
order of their names, and of several fields with one name the last is kept.
-/

namespace MessageArgs.Json

/-- Puts a field among others that are in order; one with the same name gives way. -/
def insertField (key : String) (value : Json) : List (String × Json) → List (String × Json)
  | [] => [(key, value)]
  | (name, old) :: rest =>
    if key = name then (key, value) :: rest
    else if key < name then (key, value) :: (name, old) :: rest
    else (name, old) :: insertField key value rest

mutual

/-- The same value with all its objects in order. -/
def canonical : Json → Json
  | null => null
  | bool b => bool b
  | number n => number n
  | string s => string s
  | list items => list (canonicalItems items)
  | object fields => object (canonicalFields [] fields)

/-- The items of a list with all their objects in order. -/
def canonicalItems : List Json → List Json
  | [] => []
  | item :: items => canonical item :: canonicalItems items

/-- Puts fields among others that are in order. -/
def canonicalFields (placed : List (String × Json)) : List (String × Json) → List (String × Json)
  | [] => placed
  | (key, value) :: fields => canonicalFields (insertField key (canonical value) placed) fields

end

end MessageArgs.Json
