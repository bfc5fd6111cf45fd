import Mathlib.Data.String.Basic
import MessageArgs.Proofs.Command.Input
import MessageArgs.Proofs.Encoding.DepthLimit
import MessageArgs.Proofs.Signature.Offsets

/-!
# Translation by cutting signatures

The command line translates JSON by the text of a signature: it looks at the first character, cuts
the texts of the parts out by byte positions and goes on with these. `translate` does just that, and
is stuck at a cut that is out of range. It never is: under the text of an accepted type it gives
what `valueOf` gives under the type (`translate_eq`), since the cuts are the spellings of the parts
(`slice?_eq`). There is one lemma for each kind of type (`agrees_basic` to `agrees_struct`).

With `valueOf_fits` and `encodeAs_fault` this says which values the encoder is handed and what it
may refuse them for (`translation_fits`).
-/

namespace MessageArgs.Command

open MessageArgs.CompleteType (charsAll)

/-! ## Cutting texts -/

/-- The text between two byte positions. There is none unless the positions are in order and both
on character boundaries. -/
def slice? (text : String) (start stop : Nat) : Option String :=
  if start ≤ stop ∧ String.Pos.Raw.IsValid text ⟨start⟩ ∧ String.Pos.Raw.IsValid text ⟨stop⟩ then
    some (String.Pos.Raw.extract text ⟨start⟩ ⟨stop⟩)
  else none

/-- What comes out of a translation that cuts texts, or nothing where it is stuck. -/
abbrev Slicing := ExceptT Failure Option

namespace Slicing

variable {α β : Type}

/-- An outcome that is reached. -/
def reach (outcome : Except Failure α) : Slicing α :=
  ExceptT.mk (some outcome)

/-- The same with the fact that the value comes from this outcome. -/
def known (outcome : Except Failure α) : Slicing { value // outcome = .ok value } :=
  match outcome with
  | .error failure => reach (.error failure)
  | .ok value => reach (.ok ⟨value, rfl⟩)

/-- A result that is needed to go on. -/
def need (result : Option α) : Slicing α :=
  ExceptT.lift result

@[simp]
theorem need_bind (value : α) (next : α → Slicing β) : (need (some value) >>= next) = next value :=
  rfl

theorem reach_bind {first : Except Failure α} {next : α → Except Failure β} {next' : α → Slicing β}
    (same : ∀ value, first = .ok value → next' value = reach (next value)) :
    (reach first >>= next') = reach (first >>= next) := by
  cases first with
  | error failure => rfl
  | ok value => exact same value rfl

theorem known_bind {first : Except Failure α} {next : α → Except Failure β}
    {next' : { value // first = .ok value } → Slicing β}
    (same : ∀ value, next' value = reach (next value.1)) :
    (known first >>= next') = reach (first >>= next) := by
  cases first with
  | error failure => rfl
  | ok value => exact same ⟨value, rfl⟩

theorem mapM_reach {items : List α} {step : α → Except Failure β} {step' : α → Slicing β}
    (same : ∀ item ∈ items, step' item = reach (step item)) :
    items.mapM step' = reach (items.mapM step) := by
  induction items with
  | nil => rfl
  | cons item items ih =>
    rw [List.forall_mem_cons] at same
    rw [List.mapM_cons, List.mapM_cons, same.1]
    refine reach_bind fun first _ => ?_
    rw [ih same.2]
    exact reach_bind fun rest _ => rfl

theorem mapM_reach_bind {γ : Type} {items : List α} {step : α → Except Failure β}
    {step' : α → Slicing β} {next : List β → Except Failure γ} {next' : List β → Slicing γ}
    (same : ∀ item ∈ items, step' item = reach (step item))
    (rest : ∀ results, next' results = reach (next results)) :
    (items.mapM step' >>= next') = reach (items.mapM step >>= next) := by
  rw [mapM_reach same]
  exact reach_bind fun results _ => rest results

/-- Each step may be told that its item is among the items. -/
theorem mapM_attach_bind {γ : Type} {items : List α} {step : α → Except Failure β}
    {step' : { item // item ∈ items } → Slicing β} {next : List β → Except Failure γ}
    {next' : List β → Slicing γ} (same : ∀ item, step' item = reach (step item.1))
    (rest : ∀ results, next' results = reach (next results)) :
    (items.attach.mapM step' >>= next') = reach (items.mapM step >>= next) := by
  have plain : items.attach.mapM (fun item => step item.1) = items.mapM step := by
    rw [List.mapM_subtype fun _ _ => rfl, List.unattach_attach]
  rw [← plain]
  exact mapM_reach_bind (fun item _ => same item) rest

end Slicing

open Slicing

/-- The native value that the name of a field stands for under the text of the key: the name itself
or JSON in it. This is stuck unless the key is of a basic type. -/
def translateKey (key name : String) : Slicing Value :=
  if key = "s" ∨ key = "o" ∨ key = "g" then reach (.ok (.atom (.string name)))
  else do
    let type ← need (key.toList.head?.bind BasicType.ofCode?)
    match Json.parse? name with
    | some json => reach ((atomOf type json.canonical).map .atom)
    | none => reach (.error (.keyMalformed name type))

/-- The native value that a JSON value stands for under the text of a signature. -/
def translate (config : CodecConfig) (text : String) (json : Json) : Slicing Value := do
  match ← need (text.toList.head?.bind Tag.ofCode?) with
  | .basic type => reach ((atomOf type json).map .atom)
  | .variant => do
    let inner ← known (signatureOf json)
    have := sizeOf_contentOf_lt inner.2
    let signature ← reach ((Signature.parseSingle inner.1).mapError .signature)
    let content ← translate config signature.text (contentOf json)
    let argument ← reach ((encodeSignature config signature content).mapError .codec)
    return .arg argument
  | .array =>
    if ['a', '{'].isPrefixOf text.toList then do
      let fields ← known (fieldsOf text json)
      let key ← need (slice? text 2 3)
      let element ← need (slice? text 3 (text.utf8ByteSize - 1))
      let pairs ← fields.1.attach.mapM fun field => do
        let name ← translateKey key field.1.1
        let content ← translate config element field.1.2
        return (name, content)
      return .map pairs
    else do
      let items ← known (itemsOf text json)
      let element ← need (slice? text 1 text.utf8ByteSize)
      let values ← items.1.attach.mapM fun item => translate config element item.1
      return .seq values
  | .struct => do
    let items ← known (itemsOf text json)
    let inner ← need (slice? text 1 (text.utf8ByteSize - 1))
    let members ← reach ((Grammar.caller.split inner).mapError .signature)
    if members.length ≠ items.1.length then
      reach (.error (.memberCount text members.length items.1.length))
    else do
      let values ← (members.zip items.1.attach).mapM fun slot => translate config slot.1 slot.2.1
      return .seq values
  | .dictEntry | .wildcard => reach (.error (.loosePart text))
termination_by sizeOf json
decreasing_by
  · assumption
  · exact sizeOf_field_lt fields.2 field.2
  · exact sizeOf_item_lt items.2 item.2
  · exact sizeOf_item_lt items.2 slot.2.2

/-- Between ASCII characters a text can be cut. -/
theorem slice?_eq {text : String} {before inside after : List Char}
    (spelled : text.toList = before ++ inside ++ after) (ascii : IsAscii (before ++ inside)) :
    slice? text before.length (before.length + inside.length) = some (String.ofList inside) := by
  have front : IsAscii before := (isAscii_append.1 ascii).1
  have start : String.Pos.Raw.IsValid text ⟨before.length⟩ :=
    isValid_of_ascii (by rw [spelled, List.append_assoc]) front
  have stop : String.Pos.Raw.IsValid text ⟨before.length + inside.length⟩ := by
    have valid := isValid_of_ascii spelled ascii
    rwa [List.length_append] at valid
  rw [slice?, if_pos ⟨Nat.le_add_right _ _, start, stop⟩]
  have bytes : ∀ {part}, IsAscii part → String.utf8Len part = part.length := fun ascii => by
    rw [← String.utf8ByteSize_ofList, utf8ByteSize_of_ascii ascii]
  have cut := String.extract_of_valid before inside after
  rw [bytes front, bytes (isAscii_append.1 ascii).2, ← spelled, String.ofList_toList] at cut
  rw [cut]

/-- The spelling of a type can be cut anywhere. -/
theorem slice?_type {type : CompleteType} {before inside after : List Char}
    (spelled : type.chars = before ++ inside ++ after) :
    slice? type.text before.length (before.length + inside.length) =
      some (String.ofList inside) := by
  have ascii := type.chars_ascii
  rw [spelled] at ascii
  have listed : type.text.toList = before ++ inside ++ after := by
    rw [CompleteType.text, String.toList_ofList, spelled]
  exact slice?_eq listed (isAscii_append.1 ascii).1

/-- The end of a cut counted from the end of the text. -/
theorem slice?_type_last {type : CompleteType} {before inside after : List Char}
    (spelled : type.chars = before ++ inside ++ after) :
    slice? type.text before.length (type.text.utf8ByteSize - after.length) =
      some (String.ofList inside) := by
  have bytes : type.text.utf8ByteSize - after.length = before.length + inside.length := by
    rw [type.length_text, spelled, List.length_append, List.length_append]
    omega
  rw [bytes, slice?_type spelled]

/-! ## Agreement -/

/-- Going by the text of a type and by the type come to the same. -/
def Agrees (config : CodecConfig) (json : Json) (type : CompleteType) : Prop :=
  translate config type.text json = reach (valueOf config json type)

variable {config : CodecConfig} {json : Json}

theorem head_text (type : CompleteType) :
    type.text.toList.head?.bind Tag.ofCode? = some type.tag :=
  Signature.firstTag?_ofType type

theorem agrees_basic (type : BasicType) : Agrees config json (.basic type) := by
  rw [Agrees, translate, head_text, need_bind, valueOf_basic]
  rfl

theorem agrees_variant
    (inside : ∀ type, sizeOf (contentOf json) < sizeOf json → Grammar.caller.Accepts type →
      Agrees config (contentOf json) type) : Agrees config json .variant := by
  rw [Agrees, translate, head_text, need_bind, valueOf_variant]
  refine known_bind ?_
  rintro ⟨text, found⟩
  refine reach_bind fun signature parsed => ?_
  obtain ⟨type, read, rfl⟩ := Signature.parseSingle_iff.1 (mapError_ok_iff.1 parsed)
  obtain ⟨same, accepted⟩ := Signature.eq_ofType read
  rw [same, Signature.single_ofType accepted]
  have content := inside type (sizeOf_contentOf_lt found) accepted
  show (translate config type.text (contentOf json) >>= _) =
    reach (valueOf config (contentOf json) type >>= _)
  rw [content]
  exact reach_bind fun content _ => reach_bind fun argument _ => rfl

theorem translateKey_eq (type : BasicType) (name : String) :
    translateKey (String.ofList [type.code]) name = reach (keyOf type name) := by
  have text : (String.ofList [type.code] = "s" ∨ String.ofList [type.code] = "o" ∨
      String.ofList [type.code] = "g") ↔ type.isText = true := by
    cases type <;> decide
  rw [translateKey, keyOf]
  simp only [text]
  split
  · rfl
  · rw [String.toList_ofList]
    show (need (BasicType.ofCode? type.code) >>= _) = _
    rw [BasicType.ofCode?_code, need_bind]
    cases Json.parse? name <;> rfl

theorem agrees_dictionary {key : BasicType} {element : CompleteType}
    (inside : ∀ fields, json = .object fields → ∀ field ∈ fields, Agrees config field.2 element) :
    Agrees config json (.array (.entry key element)) := by
  let type : CompleteType := .array (.entry key element)
  have keySpelled : type.chars = ['a', '{'] ++ [key.code] ++ (element.chars ++ ['}']) := rfl
  have valueSpelled : type.chars = ['a', '{', key.code] ++ element.chars ++ ['}'] := rfl
  have opens : ['a', '{'].isPrefixOf type.text.toList = true := by
    rw [CompleteType.text, String.toList_ofList, valueSpelled]
    rfl
  have name : slice? type.text 2 3 = some (String.ofList [key.code]) := slice?_type keySpelled
  have content : slice? type.text 3 (type.text.utf8ByteSize - 1) = some element.text :=
    slice?_type_last valueSpelled
  rw [Agrees, translate, head_text, need_bind, valueOf_dictionary]
  dsimp only [CompleteType.tag]
  rw [if_pos opens]
  refine known_bind ?_
  rintro ⟨fields, found⟩
  rw [name, content, need_bind, need_bind]
  refine mapM_attach_bind (fun field => ?_) fun pairs => rfl
  rw [translateKey_eq]
  refine reach_bind fun name _ => ?_
  rw [inside fields (fieldsOf_ok_iff.1 found) field.1 field.2]
  exact reach_bind fun content _ => rfl

theorem agrees_array {element : CompleteType} (other : element.tag ≠ .dictEntry)
    (inside : ∀ items, json = .list items → ∀ item ∈ items, Agrees config item element) :
    Agrees config json (.array element) := by
  have closed : ¬ ['a', '{'].isPrefixOf (CompleteType.array element).text.toList = true := by
    obtain ⟨rest, opened⟩ := element.chars_eq_cons
    rw [CompleteType.text, String.toList_ofList, CompleteType.chars, opened]
    have different : element.tag.code ≠ '{' := fun same => other (Tag.code_inj same)
    simpa [List.isPrefixOf] using different.symm
  have spelled : (CompleteType.array element).chars = ['a'] ++ element.chars ++ [] :=
    (List.append_nil _).symm
  have content : slice? (CompleteType.array element).text 1
      ((CompleteType.array element).text.utf8ByteSize - 0) = some element.text :=
    slice?_type_last spelled
  rw [Agrees, translate, head_text, need_bind, valueOf_array json other]
  dsimp only [CompleteType.tag]
  rw [if_neg closed]
  refine known_bind ?_
  rintro ⟨items, found⟩
  rw [Nat.sub_zero] at content
  rw [content, need_bind]
  have each := inside items (itemsOf_ok_iff.1 found)
  exact mapM_attach_bind (fun item => each item.1 item.2) fun values => rfl

/-- What stands between the brackets of a struct is split into its members. -/
theorem split_members {types : List CompleteType}
    (accepted : Grammar.caller.Accepts (.struct types)) :
    Grammar.caller.split (String.ofList (charsAll types)) = .ok (types.map CompleteType.text) := by
  have read : Grammar.caller.read (String.ofList (charsAll types)) = .ok types := by
    have ascii := CompleteType.charsAll_ascii types
    rw [Grammar.read_iff, String.toList_ofList, utf8ByteSize_of_ascii ascii]
    have short := accepted.2
    rw [CompleteType.chars, List.length_cons, List.length_append] at short
    exact ⟨by omega, rfl, fun type member => (accepted.member member).1⟩
  exact Grammar.split_ok_iff.2 ⟨types, read, rfl⟩

theorem agrees_struct {types : List CompleteType}
    (accepted : Grammar.caller.Accepts (.struct types))
    (inside : ∀ items, json = .list items → ∀ item ∈ items, ∀ type ∈ types,
      Agrees config item type) : Agrees config json (.struct types) := by
  have spelled : (CompleteType.struct types).chars = ['('] ++ charsAll types ++ [')'] := rfl
  have content : slice? (CompleteType.struct types).text 1
      ((CompleteType.struct types).text.utf8ByteSize - 1) = some (String.ofList (charsAll types)) :=
    slice?_type_last spelled
  rw [Agrees, translate, head_text, need_bind, valueOf_struct]
  dsimp only [CompleteType.tag]
  refine known_bind ?_
  rintro ⟨items, found⟩
  rw [content, need_bind, split_members accepted]
  show (if (types.map CompleteType.text).length ≠ items.length then _ else _) = _
  rw [List.length_map]
  by_cases arity : types.length = items.length
  · have slots : types.zip items = (types.zip items.attach).map (Prod.map id Subtype.val) := by
      rw [← List.zip_map_right, List.attach_map_subtype_val]
    rw [if_neg (not_not.2 arity), if_neg (not_not.2 arity), List.zip_map_left, List.mapM_map, slots,
      List.mapM_map]
    refine mapM_reach_bind (fun slot member => ?_) fun values => rfl
    have listed := (List.of_mem_zip member).1
    exact inside items (itemsOf_ok_iff.1 found) slot.2.1 slot.2.2 slot.1 listed
  · rw [if_pos arity, if_pos arity]

/-- Translating by the text of an accepted type is never stuck, and gives what the type says. The
contents of variants have types of their own, so the induction is on the size of the document. -/
theorem translate_eq {type : CompleteType} (accepted : Grammar.caller.Accepts type)
    (json : Json) : Agrees config json type := by
  induction size : sizeOf json using Nat.strongRecOn generalizing json type with
  | ind size ih =>
    subst size
    induction accepted using Grammar.Accepts.slots with
    | basic type => exact agrees_basic type
    | variant => exact agrees_variant fun type smaller accepted => ih _ smaller accepted _ rfl
    | dictionary key element accepted inside =>
      refine agrees_dictionary fun fields same field member => ?_
      subst same
      exact ih _ (Json.sizeOf_field_lt member) inside _ rfl
    | array element accepted other inside =>
      refine agrees_array other fun items same item member => ?_
      subst same
      exact ih _ (Json.sizeOf_item_lt member) inside _ rfl
    | struct types accepted inside =>
      refine agrees_struct accepted fun items same item member type listed => ?_
      subst same
      exact ih _ (Json.sizeOf_item_lt member) (inside type listed) _ rfl

/-! ## Main result -/

/-- Under a signature of one complete type the translation of JSON by cutting texts is never stuck,
and gives what the type says. Whatever native value comes out, the encoder returns an argument of
the signature asked for or refuses the value for one of its faults or for its depth: it never finds
a value of the wrong type, a type that cannot be used or a struct with the wrong number of
members. -/
theorem translation_fits {signature : Signature} {type : CompleteType}
    (single : Grammar.caller.read signature.text = .ok [type]) (config : CodecConfig)
    (json : Json) :
    translate config signature.text json = reach (valueOf config json type) ∧
    ∀ value, valueOf config json type = .ok value →
      (∀ arg, encodeSignature config signature value = .ok arg → arg.signature = signature) ∧
      ∀ error, encodeSignature config signature value = .error error →
        (Encoding.Fault config type value error ∨ ∃ arg, config.maxDepth < Argument.depth arg ∧
          error = .tooDeep arg.depth config.maxDepth) ∧
        (∀ expected found, error ≠ .typeMismatch expected found) ∧
        (∀ use, error ≠ .unsupported use) ∧
        ∀ text expected given, error ≠ .shapeMismatch (.structCount text expected given) := by
  obtain ⟨rfl, accepted⟩ := Signature.eq_ofType single
  refine ⟨translate_eq accepted json, fun value filled => ?_⟩
  rw [encodeSignature_ofType accepted]
  constructor
  · intro arg encoded
    obtain ⟨conforms, rfl⟩ := (Encoding.encodeAs_iff accepted).1
      (Encoding.encodeComplete_iff.1 encoded).1
    exact Encoding.signature_tree conforms (accepted.ne_wildcard)
  · intro error failed
    rcases bind_error_iff.1 failed with inside | ⟨arg, -, refused⟩
    · have fault := Encoding.encodeAs_fault accepted (valueOf_fits filled) error inside
      have known := fault.isFault
      refine ⟨.inl fault, ?_, ?_, ?_⟩ <;> intros <;> rintro rfl <;> exact known
    · obtain ⟨deep, rfl⟩ := Encoding.checkDepth_error_iff.1 refused
      exact ⟨.inr ⟨arg, deep, rfl⟩, by simp⟩

/-- A dictionary of variants and a text that should be a signature and is none. -/
theorem translation_fits_struct :
    let type : CompleteType := .struct [.array (.entry .int32 .variant), .basic .signature]
    let json : Json := .list
      [.object [("1", .object [("signature", .string "b"), ("value", .bool true)])], .string "("]
    let value : Value := .seq
      [.map [(.atom (.int32 1), .arg (.scalar (.bool true)))], .atom (.string "(")]
    translate .standard "(a{iv}g)" json = reach (.ok value) ∧
      ∃ cause, encodeSignature .standard ⟨"(a{iv}g)"⟩ value = .error (.signature cause) ∧
        Encoding.Fault .standard type value (.signature cause) := by
  intro type json value
  have single : Grammar.caller.read "(a{iv}g)" = .ok [type] := rfl
  have filled : valueOf .standard json type = .ok value := rfl
  obtain ⟨cause, failed⟩ : ∃ cause, encodeSignature .standard ⟨"(a{iv}g)"⟩ value =
      .error (.signature cause) := ⟨_, rfl⟩
  obtain ⟨cut, fits⟩ := @translation_fits ⟨"(a{iv}g)"⟩ type single .standard json
  refine ⟨cut.trans (congrArg reach filled), cause, failed, ?_⟩
  rcases ((fits value filled).2 _ failed).1 with fault | ⟨arg, -, deep⟩
  · exact fault
  · cases deep

end MessageArgs.Command
