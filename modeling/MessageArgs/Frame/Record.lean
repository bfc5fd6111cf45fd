import MessageArgs.Error
import MessageArgs.Json.Document

/-!
# Reading records

A record is written as an object with named fields in any order, or as a list of its fields in
their own order. Unknown fields are passed over without a look at their values; a known field that
comes twice is refused. Whatever is wrong with a record is reported for the place that is read
first, so a fault in a field wins over a missing bracket behind it.
-/

namespace MessageArgs

/-- Where a node is read from. -/
inductive Source
  /-- The text, in the order in which it is written. -/
  | text
  /-- What was kept until it was known what it is. -/
  | kept
deriving DecidableEq, Repr

/-- The result of reading something out of a frame. -/
abbrev Reading (α : Type) := Except ReadFault α

namespace Reading

open Json (Node)

variable {α β σ : Type}

/-- Refuses text of another form than the expected one. -/
def malformed : Reading α :=
  .error .malformed

/-- The value that is there, if it is there. -/
def require : Option α → Reading α
  | some value => .ok value
  | none => malformed

/-- Fills a slot that must still be empty. -/
def fillOnce (slot : Option α) (read : Reading α) : Reading (Option α) :=
  match slot with
  | some _ => malformed
  | none => read.map some

/-- The fields of a record with some names, and whether all of the record is there. A list has no
more items than there are names. -/
def fieldsOf (names : List String) : Node → Option (List (Option String × Node) × Bool)
  | .object fields closed => some (fields, closed)
  | .list items closed =>
    some ((names.map some).zip items, closed && items.length ≤ names.length)
  | _ => none

/-- Takes in fields one by one. -/
def takeFields (step : σ → String → Node → Reading σ) (state : σ) :
    List (Option String × Node) → Reading σ
  | [] => .ok state
  | (none, _) :: _ => malformed
  | (some key, node) :: rest =>
    match step state key node with
    | .ok next => takeFields step next rest
    | .error fault => .error fault

/-- Reads a record: `step` takes in a field and `finish` makes something of the state in the end. -/
def record (names : List String) (step : σ → String → Node → Reading σ) (initial : σ)
    (finish : σ → Reading α) (node : Node) : Reading α :=
  match fieldsOf names node with
  | none => malformed
  | some (fields, closed) =>
    match takeFields step initial fields with
    | .error fault => .error fault
    | .ok state => if closed then finish state else malformed

/-- Reads a record with two fields, both of which must be there. -/
def pair (name name' : String) (first : Node → Reading α) (second : Node → Reading β)
    (finish : α → β → Reading σ) : Node → Reading σ :=
  record [name, name']
    (fun state key node =>
      if key = name then (fillOnce state.1 (first node)).map fun slot => (slot, state.2)
      else if key = name' then (fillOnce state.2 (second node)).map fun slot => (state.1, slot)
      else .ok state)
    ((none, none) : Option α × Option β)
    fun state =>
      match state with
      | (some a, some b) => finish a b
      | _ => malformed

/-- Reads a record with one field, which must be there. -/
def sole (name : String) (read : Node → Reading α) (finish : α → Reading σ) : Node → Reading σ :=
  record [name]
    (fun state key node => if key = name then fillOnce state (read node) else .ok state)
    none
    fun state =>
      match state with
      | some a => finish a
      | none => malformed

/-- Reads the items of a list. -/
def items (read : Node → Reading α) : Node → Reading (List α)
  | .list nodes closed =>
    match nodes.mapM read with
    | .error fault => .error fault
    | .ok values => if closed then .ok values else malformed
  | _ => malformed

/-- Reads a string. -/
def string : Node → Reading String
  | .string (some s) => .ok s
  | _ => malformed

/-- Reads a truth value. -/
def bool : Node → Reading Bool
  | .bool b => .ok b
  | _ => malformed

/-- Reads a number. -/
def number : Node → Reading Json.NumberValue
  | .number text => require text.value?
  | _ => malformed

/-- Reads an integer between two bounds, which belong to the range. -/
def integer (low high : Int) (node : Node) : Reading Int :=
  match number node with
  | .ok (.integer n) => if low ≤ n ∧ n ≤ high then .ok n else malformed
  | _ => malformed

/-- Reads a natural number below a power of two. -/
def natural (bits : Nat) (node : Node) : Reading Nat :=
  (integer 0 (Int.ofNat (Nat.pow 2 bits) - 1) node).map Int.toNat

/-- Reads a signed integer of some width. -/
def signed (bits : Nat) (node : Node) : Reading Int :=
  integer (-Int.ofNat (Nat.pow 2 (bits - 1))) (Int.ofNat (Nat.pow 2 (bits - 1)) - 1) node

/-- Reads a double; an integer stands for the nearest one. -/
def double (node : Node) : Reading Number.Double :=
  match number node with
  | .ok (.integer n) => .ok (Number.Double.ofInt n)
  | .ok (.double x) => .ok x
  | .error fault => .error fault

/-- Whether a node stands for nothing. In what was kept, an empty object does so too. -/
def isUnit (source : Source) : Node → Bool
  | .null => true
  | .object [] true => source = .kept
  | _ => false

/-- Reads one of several names: a string, or an object with that name and nothing under it. -/
def name (source : Source) (room : Nat) : Node → Reading String
  | .string (some s) => .ok s
  | .object [(some s, content)] true =>
    if 0 < room ∧ isUnit source content then .ok s else malformed
  | _ => malformed

end Reading

end MessageArgs
