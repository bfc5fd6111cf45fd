import MessageArgs.Proofs.Json.Numbers

/-!
# Documents come back

What the reader makes of a JSON value that is written without blanks. `Json.node` is the tree that
is read; it is complete, and its numbers are those of the value if each of them is reproduced
(`Json.Reproduced`). `readNode_print` is the statement for a value in front of any text, by
induction over the value, and `readDocument_toFrame` the one for a whole document. From the tree the
value is had again, unless it is nested too deep (`toJson?_node`, `parse?_text`).
-/

namespace MessageArgs.Json

open Text (Letter)

/-! ## Trees -/

/-- Induction over a value and everything inside it. -/
@[elab_as_elim]
theorem induction {P : Json → Prop} (null : P .null) (bool : ∀ b, P (.bool b))
    (number : ∀ n, P (.number n)) (string : ∀ s, P (.string s))
    (list : ∀ items, (∀ item ∈ items, P item) → P (.list items))
    (object : ∀ fields, (∀ field ∈ fields, P field.2) → P (.object fields)) : ∀ json, P json
  | .null => null
  | .bool b => bool b
  | .number n => number n
  | .string s => string s
  | .list items => list items fun item _ => induction null bool number string list object item
  | .object fields =>
    object fields fun field member =>
      have : sizeOf field.2 < sizeOf fields := by
        have := List.sizeOf_lt_of_mem member
        obtain ⟨key, value⟩ := field
        simp only [Prod.mk.sizeOf_spec] at this ⊢
        omega
      induction null bool number string list object field.2

/-- The text of a number that a reader finds. -/
def NumberValue.text (n : NumberValue) : NumberText :=
  ((readNumber ((printNumber n).map some)).map Prod.fst).getD ⟨false, [], [], none⟩

theorem NumberValue.Reproduced.read {n : NumberValue} (h : n.Reproduced) :
    readNumber ((printNumber n).map some) = some (n.text, []) ∧ n.text.value? = some n := by
  obtain ⟨text, read, value⟩ := h
  rw [NumberValue.text, read]
  exact ⟨rfl, value⟩

mutual

/-- The tree that is read where a value is written. -/
def node : Json → Node
  | null => .null
  | bool b => .bool b
  | number n => .number n.text
  | string s => .string (some s)
  | list items => .list (nodes items) true
  | object fields => .object (fieldNodes fields) true

/-- The trees of several values. -/
def nodes : List Json → List Node
  | [] => []
  | item :: items => node item :: nodes items

/-- The trees of several fields. -/
def fieldNodes : List (String × Json) → List (Option String × Node)
  | [] => []
  | (key, value) :: fields => (some key, node value) :: fieldNodes fields

end

mutual

/-- All numbers in a value are read as they were. -/
def Reproduced : Json → Prop
  | number n => n.Reproduced
  | list items => AllReproduced items
  | object fields => FieldsReproduced fields
  | _ => True

/-- All numbers in several values are read as they were. -/
def AllReproduced : List Json → Prop
  | [] => True
  | item :: items => Reproduced item ∧ AllReproduced items

/-- All numbers in several fields are read as they were. -/
def FieldsReproduced : List (String × Json) → Prop
  | [] => True
  | (_, value) :: fields => Reproduced value ∧ FieldsReproduced fields

end

@[simp]
theorem allReproduced_iff {items : List Json} :
    AllReproduced items ↔ ∀ item ∈ items, item.Reproduced := by
  induction items with
  | nil => simp [AllReproduced]
  | cons item items ih => rw [AllReproduced, ih, List.forall_mem_cons]

theorem fieldsReproduced_iff {fields : List (String × Json)} :
    FieldsReproduced fields ↔ ∀ field ∈ fields, field.2.Reproduced := by
  induction fields with
  | nil => simp [FieldsReproduced]
  | cons field fields ih => rw [FieldsReproduced, ih, List.forall_mem_cons]

theorem nodes_eq (items : List Json) : nodes items = items.map node := by
  induction items with
  | nil => rfl
  | cons item items ih => rw [nodes, ih, List.map_cons]

mutual

/-- How deep lists and objects nest in a value. -/
def nesting : Json → Nat
  | list items => nestingOfAll items + 1
  | object fields => nestingOfFields fields + 1
  | _ => 0

/-- How deep lists and objects nest in several values. -/
def nestingOfAll : List Json → Nat
  | [] => 0
  | item :: items => max (nesting item) (nestingOfAll items)

/-- How deep lists and objects nest in several fields. -/
def nestingOfFields : List (String × Json) → Nat
  | [] => 0
  | (_, value) :: fields => max (nesting value) (nestingOfFields fields)

end

@[simp]
theorem nestingOfAll_le_iff {items : List Json} {limit : Nat} :
    nestingOfAll items ≤ limit ↔ ∀ item ∈ items, item.nesting ≤ limit := by
  induction items with
  | nil => simp [nestingOfAll]
  | cons item items ih => rw [nestingOfAll, Nat.max_le, ih, List.forall_mem_cons]

theorem node_ne_broken (json : Json) : json.node ≠ .broken := by
  cases json <;> simp [node]

/-! ## First characters -/

/-- The characters that a value begins with. -/
def BeginsValue (c : Char) : Prop :=
  c ∈ ['n', 't', 'f', '"', '[', '{'] ∨ BeginsNumber c
deriving Decidable

theorem BeginsValue.printable {c : Char} (h : BeginsValue c) :
    c ∉ [' ', '\n', '\t', '\r', ']', '}'] := by
  intro other
  simp only [List.mem_cons, List.not_mem_nil, or_false] at other
  rcases other with rfl | rfl | rfl | rfl | rfl | rfl <;> exact absurd h (by decide)

theorem print_begins {json : Json} (h : json.Reproduced) :
    ∃ c chars, json.print = c :: chars ∧ BeginsValue c := by
  cases json with
  | null => exact ⟨'n', _, rfl, Or.inl (by decide)⟩
  | bool b => cases b <;> exact ⟨_, _, rfl, Or.inl (by decide)⟩
  | number n =>
    obtain ⟨text, read, -⟩ := h
    obtain ⟨c, after, begins, number⟩ := readNumber_begins read
    obtain ⟨_, chars, printed, same, -⟩ := List.map_eq_cons_iff.1 begins
    cases same
    exact ⟨c, chars, printed, Or.inr number⟩
  | string s => exact ⟨'"', _, rfl, Or.inl (by decide)⟩
  | list items => cases items <;> exact ⟨'[', _, rfl, Or.inl (by decide)⟩
  | object fields =>
    rcases fields with _ | ⟨⟨key, value⟩, fields⟩ <;> exact ⟨'{', _, rfl, Or.inl (by decide)⟩

theorem skipBlanks_cons {c : Char} (h : c ∉ [' ', '\n', '\t', '\r']) (rest : List Letter) :
    skipBlanks (some c :: rest) = some c :: rest := by
  simp only [List.mem_cons, List.not_mem_nil, or_false, not_or] at h
  rw [skipBlanks, if_neg]
  simp [h]

theorem skipBlanks_of_begins {c : Char} (h : BeginsValue c) (rest : List Letter) :
    skipBlanks (some c :: rest) = some c :: rest := by
  have printable := h.printable
  simp only [List.mem_cons, List.not_mem_nil, or_false, not_or] at printable
  exact skipBlanks_cons (by simp [printable]) rest

/-! ## Values -/

variable {fuel : Nat} {rest : List Letter}

/-- In front of any text that does not continue a number, a value is read as its tree. -/
def ReadsBack (json : Json) : Prop :=
  ∀ fuel rest, EndsNumber rest → 2 * json.print.length ≤ fuel →
    readNode fuel (json.print.map some ++ rest) = (json.node, some rest)

theorem endsNumber_cons {c : Char} (h : c ∈ [',', ']', '}', ':']) :
    EndsNumber (some c :: rest) := by
  simp only [List.mem_cons, List.not_mem_nil, or_false] at h
  rcases h with rfl | rfl | rfl | rfl <;> rintro letter ⟨⟩ <;> decide

theorem BeginsNumber.other {c : Char} (h : BeginsNumber c) :
    c ∉ ['n', 't', 'f', '"', '[', '{'] := by
  intro other
  simp only [List.mem_cons, List.not_mem_nil, or_false] at other
  rcases other with rfl | rfl | rfl | rfl | rfl | rfl <;> exact absurd h (by decide)

theorem readNode_number {c : Char} (h : BeginsNumber c) (rest : List Letter) :
    readNode (fuel + 1) (some c :: rest) = readNumberNode (some c :: rest) := by
  have other := h.other
  simp only [List.mem_cons, List.not_mem_nil, or_false, not_or] at other
  rw [readNode, skipBlanks_of_begins (Or.inr h)]
  split <;> rename_i same
  all_goals first | rfl | (cases same; simp at other)

theorem printString_letters (s : String) (rest : List Letter) :
    (printString s).map some ++ rest =
      some '"' :: ((s.toList.flatMap escapeChar).map some ++ some '"' :: rest) := by
  simp [printString]

theorem readNode_string (s : String) (rest : List Letter) :
    readNode (fuel + 1) ((printString s).map some ++ rest) = (.string (some s), some rest) := by
  rw [printString_letters, readNode, skipBlanks_cons (by decide)]
  simp only [readString_escaped]

/-- A list that is not empty is read item by item. -/
theorem readNode_list {c : Char} {inside after : List Letter} (begins : inside = some c :: after)
    (h : BeginsValue c) : readNode (fuel + 1) (some '[' :: inside) =
      (.list (readItems fuel inside).1 (readItems fuel inside).2.isSome,
        (readItems fuel inside).2) := by
  subst begins
  rw [readNode, skipBlanks_cons (by decide)]
  simp only [skipBlanks_of_begins h]
  split
  · rename_i same
    cases same
    exact absurd h.printable (by decide)
  · rfl

/-- An object that is not empty is read field by field. -/
theorem readNode_object {inside after : List Letter} (begins : inside = some '"' :: after) :
    readNode (fuel + 1) (some '\x7b' :: inside) =
      (.object (readFields fuel inside).1 (readFields fuel inside).2.isSome,
        (readFields fuel inside).2) := by
  subst begins
  rfl

/-- The last item of a list. -/
theorem readItems_last {letters : List Letter} {item : Node} (whole : item ≠ .broken)
    (h : readNode fuel letters = (item, some (some ']' :: rest))) :
    readItems (fuel + 1) letters = ([item], some rest) := by
  rw [readItems, h]
  cases item with
  | broken => exact absurd rfl whole
  | _ => rfl

/-- An item of a list that is not the last one. -/
theorem readItems_more {letters : List Letter} {item : Node} (whole : item ≠ .broken)
    (h : readNode fuel letters = (item, some (some ',' :: rest))) :
    readItems (fuel + 1) letters = (item :: (readItems fuel rest).1, (readItems fuel rest).2) := by
  rw [readItems, h]
  cases item with
  | broken => exact absurd rfl whole
  | _ => rfl

theorem readItems_print {item : Json} {items : List Json} (back : item.ReadsBack)
    (others : ∀ other ∈ items, other.ReadsBack) :
    2 * (item.print ++ printItems items).length < fuel →
    readItems fuel ((item.print ++ printItems items).map some ++ some ']' :: rest) =
      (nodes (item :: items), some rest) := by
  induction items generalizing item fuel with
  | nil =>
    intro enough
    obtain ⟨fuel, rfl⟩ : ∃ less, fuel = less + 1 := ⟨fuel - 1, by omega⟩
    rw [printItems, List.append_nil] at enough ⊢
    exact readItems_last (node_ne_broken item)
      (back fuel _ (endsNumber_cons (by decide)) (by omega))
  | cons next items ih =>
    intro enough
    obtain ⟨fuel, rfl⟩ : ∃ less, fuel = less + 1 := ⟨fuel - 1, by omega⟩
    rw [List.forall_mem_cons] at others
    simp only [printItems, List.length_append, List.length_cons, List.length_nil] at enough
    have first := back fuel
      (some ',' :: ((next.print ++ printItems items).map some ++ some ']' :: rest))
      (endsNumber_cons (by decide)) (by omega)
    have more := @ih fuel next others.1 others.2 (by rw [List.length_append]; omega)
    have letters : (item.print ++ printItems (next :: items)).map some ++ some ']' :: rest =
        item.print.map some ++
          some ',' :: ((next.print ++ printItems items).map some ++ some ']' :: rest) := by
      simp [printItems]
    rw [letters, readItems_more (node_ne_broken item) first, more]
    rfl

/-- The last field of an object. -/
theorem readFields_last {letters : List Letter} {value : Node} (key : String)
    (whole : value ≠ .broken)
    (h : readNode fuel letters = (value, some (some '\x7d' :: rest))) :
    readFields (fuel + 1) ((printString key).map some ++ some ':' :: letters) =
      ([(some key, value)], some rest) := by
  have colon : ':' ∉ [' ', '\n', '\t', '\r'] := by decide
  rw [printString_letters, readFields, skipBlanks_cons (by decide)]
  simp only [readString_escaped, skipBlanks_cons colon, h]
  cases value with
  | broken => exact absurd rfl whole
  | _ => rfl

/-- A field of an object that is not the last one. -/
theorem readFields_more {letters : List Letter} {value : Node} (key : String)
    (whole : value ≠ .broken)
    (h : readNode fuel letters = (value, some (some ',' :: rest))) :
    readFields (fuel + 1) ((printString key).map some ++ some ':' :: letters) =
      ((some key, value) :: (readFields fuel rest).1, (readFields fuel rest).2) := by
  have colon : ':' ∉ [' ', '\n', '\t', '\r'] := by decide
  rw [printString_letters, readFields, skipBlanks_cons (by decide)]
  simp only [readString_escaped, skipBlanks_cons colon, h]
  cases value with
  | broken => exact absurd rfl whole
  | _ => rfl

theorem readFields_print {key : String} {value : Json} {fields : List (String × Json)}
    (back : value.ReadsBack) (others : ∀ field ∈ fields, field.2.ReadsBack)
    (enough : 2 * (value.print ++ printFields fields).length < fuel) :
    readFields fuel ((printString key).map some ++
      some ':' :: ((value.print ++ printFields fields).map some ++ some '\x7d' :: rest)) =
      (fieldNodes ((key, value) :: fields), some rest) := by
  induction fields generalizing key value fuel with
  | nil =>
    obtain ⟨fuel, rfl⟩ : ∃ less, fuel = less + 1 := ⟨fuel - 1, by omega⟩
    rw [printFields, List.append_nil] at enough ⊢
    exact readFields_last key (node_ne_broken value)
      (back fuel _ (endsNumber_cons (by decide)) (by omega))
  | cons next fields ih =>
    obtain ⟨fuel, rfl⟩ : ∃ less, fuel = less + 1 := ⟨fuel - 1, by omega⟩
    obtain ⟨key', value'⟩ := next
    rw [List.forall_mem_cons] at others
    simp only [printFields, List.length_append, List.length_cons, List.length_nil] at enough
    have first := back fuel
      (some ',' :: ((printString key').map some ++
        some ':' :: ((value'.print ++ printFields fields).map some ++ some '\x7d' :: rest)))
      (endsNumber_cons (by decide)) (by omega)
    have more := @ih fuel key' value' others.1 others.2 (by rw [List.length_append]; omega)
    have letters : (value.print ++ printFields ((key', value') :: fields)).map some ++
          some '\x7d' :: rest =
        value.print.map some ++ some ',' :: ((printString key').map some ++
          some ':' :: ((value'.print ++ printFields fields).map some ++ some '\x7d' :: rest)) := by
      simp [printFields]
    rw [letters, readFields_more key (node_ne_broken value) first, more]
    rfl

/-- Every value has a character, so there is fuel for it. -/
theorem readsBack_of_succ {json : Json} (h : json.Reproduced)
    (back : ∀ fuel rest, EndsNumber rest → 2 * json.print.length ≤ fuel + 1 →
      readNode (fuel + 1) (json.print.map some ++ rest) = (json.node, some rest)) :
    json.ReadsBack := by
  intro fuel rest ends enough
  obtain ⟨c, chars, printed, -⟩ := print_begins h
  have length : 0 < json.print.length := by
    rw [printed]
    exact Nat.succ_pos _
  obtain ⟨fuel, rfl⟩ : ∃ less, fuel = less + 1 := ⟨fuel - 1, by omega⟩
  exact back fuel rest ends enough

/-- A value whose numbers are reproduced is read as it was written. -/
theorem readNode_print {json : Json} (h : json.Reproduced) : json.ReadsBack := by
  induction json using Json.induction with
  | null => exact readsBack_of_succ h fun _ _ _ _ => rfl
  | bool b => exact readsBack_of_succ h fun _ _ _ _ => by cases b <;> rfl
  | number n =>
    refine readsBack_of_succ h fun fuel rest ends _ => ?_
    obtain ⟨c, chars, printed, -⟩ := print_begins h
    have read := readNumber_append ends (NumberValue.Reproduced.read h).1
    obtain ⟨c, after, begins, number⟩ := readNumber_begins read
    show readNode (fuel + 1) ((printNumber n).map some ++ rest) = _
    rw [begins, readNode_number number, ← begins, readNumberNode, read]
    rfl
  | string s => exact readsBack_of_succ h fun _ rest _ _ => readNode_string s rest
  | list items ih =>
    refine readsBack_of_succ h fun fuel rest _ enough => ?_
    cases items with
    | nil => rfl
    | cons item items =>
      have inside : ∀ item' ∈ item :: items, item'.ReadsBack := fun item' member =>
        ih item' member (allReproduced_iff.1 h item' member)
      rw [List.forall_mem_cons] at inside
      obtain ⟨c, chars, printed, begins⟩ :=
        print_begins (allReproduced_iff.1 h item List.mem_cons_self)
      have letters : (list (item :: items)).print.map some ++ rest =
          some '[' :: ((item.print ++ printItems items).map some ++ some ']' :: rest) := by
        simp [print]
      have first : (item.print ++ printItems items).map some ++ some ']' :: rest =
          some c :: ((chars ++ printItems items).map some ++ some ']' :: rest) := by
        simp [printed]
      have room : 2 * (item.print ++ printItems items).length < fuel := by
        simp only [print, List.length_append, List.length_cons, List.length_nil] at enough ⊢
        omega
      rw [letters, readNode_list first begins, readItems_print inside.1 inside.2 room]
      rfl
  | object fields ih =>
    refine readsBack_of_succ h fun fuel rest _ enough => ?_
    rcases fields with _ | ⟨⟨key, value⟩, fields⟩
    · rfl
    · have inside : ∀ field ∈ (key, value) :: fields, field.2.ReadsBack := fun field member =>
        ih field member (fieldsReproduced_iff.1 h field member)
      rw [List.forall_mem_cons] at inside
      have letters : (object ((key, value) :: fields)).print.map some ++ rest =
          some '\x7b' :: ((printString key).map some ++
            some ':' :: ((value.print ++ printFields fields).map some ++ some '\x7d' :: rest)) := by
        simp [print]
      have room : 2 * (value.print ++ printFields fields).length < fuel := by
        simp only [print, List.length_append, List.length_cons, List.length_nil] at enough ⊢
        omega
      rw [letters, readNode_object (printString_letters key _),
        readFields_print inside.1 inside.2 room]
      rfl

/-- A document is read as the value that it holds, to its end. -/
theorem readDocument_toFrame {json : Json} (h : json.Reproduced) :
    readDocument (Text.letters json.text.toUTF8) = (json.node, true) := by
  have chars : json.text.toList = json.print := String.toList_ofList
  have whole := readNode_print h (2 * (json.print.map some).length + 2) []
    (by simp [EndsNumber]) (by rw [List.length_map]; omega)
  rw [List.append_nil] at whole
  rw [Text.letters_toUTF8, chars, readDocument, whole]
  rfl

/-! ## Complete trees -/

theorem toJsonItems?_nodes {items : List Json} {room : Nat}
    (each : ∀ item ∈ items, item.node.toJson? room = some item) :
    toJsonItems? room (nodes items) = some items := by
  induction items with
  | nil => rfl
  | cons item items ih =>
    rw [List.forall_mem_cons] at each
    rw [nodes, toJsonItems?, each.1, ih each.2]
    rfl

theorem toJsonFields?_fieldNodes {fields : List (String × Json)} {room : Nat}
    (each : ∀ field ∈ fields, field.2.node.toJson? room = some field.2) :
    toJsonFields? room (fieldNodes fields) = some fields := by
  induction fields with
  | nil => rfl
  | cons field fields ih =>
    rw [List.forall_mem_cons] at each
    rw [fieldNodes, toJsonFields?, each.1, ih each.2]
    rfl

theorem nestingOfFields_le_iff {fields : List (String × Json)} {limit : Nat} :
    nestingOfFields fields ≤ limit ↔ ∀ field ∈ fields, field.2.nesting ≤ limit := by
  induction fields with
  | nil => simp [nestingOfFields]
  | cons field fields ih => rw [nestingOfFields, Nat.max_le, ih, List.forall_mem_cons]

/-- A tree in which nothing is missing has its value, if there is room for it. -/
theorem toJson?_node {json : Json} (h : json.Reproduced) {room : Nat}
    (shallow : json.nesting ≤ room) : json.node.toJson? room = some json := by
  induction json using Json.induction generalizing room with
  | null | bool | string => rfl
  | number n =>
    show n.text.value?.map number = some (number n)
    rw [(NumberValue.Reproduced.read h).2]
    rfl
  | list items ih =>
    rw [nesting] at shallow
    have inside : ∀ item ∈ items, item.node.toJson? (room - 1) = some item := fun item member =>
      ih item member (allReproduced_iff.1 h item member)
        (nestingOfAll_le_iff.1 (Nat.le_sub_one_of_lt shallow) item member)
    rw [node, Node.toJson?, if_pos ⟨rfl, by omega⟩, toJsonItems?_nodes inside]
    rfl
  | object fields ih =>
    rw [nesting] at shallow
    have inside : ∀ field ∈ fields, field.2.node.toJson? (room - 1) = some field.2 :=
      fun field member => ih field member (fieldsReproduced_iff.1 h field member)
        (nestingOfFields_le_iff.1 (Nat.le_sub_one_of_lt shallow) field member)
    rw [node, Node.toJson?, if_pos ⟨rfl, by omega⟩, toJsonFields?_fieldNodes inside]
    rfl

/-- A document that is written is parsed as the value that it holds. -/
theorem parse?_text {json : Json} (h : json.Reproduced) (shallow : json.nesting ≤ maxNesting) :
    parse? json.text = some json := by
  have read := readDocument_toFrame h
  rw [Text.letters_toUTF8] at read
  rw [parse?, read, if_pos rfl, toJson?_node h shallow]

end MessageArgs.Json
