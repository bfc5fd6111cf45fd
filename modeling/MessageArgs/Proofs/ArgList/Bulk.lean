import MessageArgs.Proofs.ArgList.InPlace
import MessageArgs.Proofs.Relay
import MessageArgs.Proofs.Signature.Accessors

/-!
# Slot by slot

Setting or getting many slots at once is setting or getting one after the other. `setMany` reads its
signature once and encodes under the types that it has read, where `set` reads the text of an
element again. That text is a signature of its own and names its type (`Grammar.read_element`), so
both encode under the same type. `setEach_eq` and `getEach_eq` take this through any number of
slots, and `bulk_eq_each` puts the checks of the range in front.
-/

namespace MessageArgs

/-- An element of a signature is read again as the type that it was read as. -/
theorem Grammar.read_element {grammar : Grammar} {text : String} {types : List CompleteType}
    (read : grammar.read text = .ok types) :
    ∀ type ∈ types, grammar.read type.text = .ok [type] := by
  intro type member
  exact read_text_iff.2 ⟨rfl, accepts_of_read read type member⟩

namespace ArgList

/-! ## Setting -/

/-- Encodes values into neighbouring slots, each under its own text, one call after the other. The
first error ends this. -/
def setEach (list : ArgList) (offset : Nat) (contents : List (String × Value)) :
    Except CodecError ArgList :=
  (contents.zipIdx offset).foldlM (fun list next => list.set next.2 next.1.1 next.1.2) list

/-- The list with some arguments in the slots from an index on. -/
def filled (list : ArgList) (offset : Nat) (args : List Argument) : ArgList :=
  { list with slots := fill list.slots offset args }

theorem filled_nil (list : ArgList) (offset : Nat) : list.filled offset [] = list := by
  rw [filled, fill_nil]

theorem filled_cons {list : ArgList} {offset : Nat} (inside : offset < list.length)
    (argument : Argument) (args : List Argument) :
    list.filled offset (argument :: args) =
      (list.filled offset [argument]).filled (offset + 1) args := by
  rw [filled, filled, filled, fill_cons inside, fill_cons inside, fill_nil]

theorem length_filled {list : ArgList} {offset : Nat} (inside : offset < list.length)
    (argument : Argument) : (list.filled offset [argument]).length = list.length := by
  rw [filled, fill_cons inside, fill_nil]
  exact List.length_set

theorem setEach_cons (list : ArgList) (offset : Nat) (text : String) (value : Value)
    (contents : List (String × Value)) :
    list.setEach offset ((text, value) :: contents) =
      list.set offset text value >>= fun next => next.setEach (offset + 1) contents := by
  rw [setEach, List.zipIdx_cons, List.foldlM_cons]
  rfl

theorem set_eq {list : ArgList} {index : Nat} (inside : index < list.length) (text : String)
    (value : Value) :
    list.set index text value =
      (encode list.config text value).map fun argument => list.filled index [argument] := by
  simp only [filled, fill_cons inside, fill_nil]
  rw [set, checkIndex_iff.2 inside]
  cases encode list.config text value <;> rfl

variable {list : ArgList} {offset : Nat} {types : List CompleteType}

/-- Setting one slot after the other is encoding all values and then filling the slots. Each step
reads the text of its element again, as the same type. -/
theorem setEach_eq {values : List Value}
    (single : ∀ type ∈ types, Grammar.caller.read type.text = .ok [type])
    (range : offset + types.length ≤ list.length) :
    list.setEach offset ((types.map CompleteType.text).zip values) =
      (Encoding.encodeEach list.config types values).map (list.filled offset) := by
  induction types generalizing list offset values with
  | nil => exact congrArg Except.ok (list.filled_nil offset).symm
  | cons type types ih =>
    cases values with
    | nil => exact congrArg Except.ok (list.filled_nil offset).symm
    | cons value values =>
      rw [List.forall_mem_cons] at single
      rw [List.length_cons] at range
      have inside : offset < list.length := by omega
      rw [List.map_cons, List.zip_cons_cons, setEach_cons, set_eq inside,
        encode_of_single single.1, Encoding.encodeEach]
      cases Encoding.encodeComplete list.config type value with
      | error error => rfl
      | ok argument =>
        have room : offset + 1 + types.length ≤ (list.filled offset [argument]).length := by
          rw [length_filled inside]
          omega
        show (list.filled offset [argument]).setEach (offset + 1) _ = _
        rw [ih single.2 room]
        show (Encoding.encodeEach list.config types values).map _ = _
        cases Encoding.encodeEach list.config types values with
        | error error => rfl
        | ok args => exact congrArg Except.ok (filled_cons inside argument args).symm

/-- A range that is refused is refused before the values are looked at. -/
theorem setMany_of_checkRange {text : String} {error : CodecError}
    (read : Grammar.caller.read text = .ok types)
    (refused : list.checkRange offset types.length = .error error) (values : List Value) :
    list.setMany offset text values = .error error := by
  rw [setMany, read]
  show (list.checkRange offset types.length >>= fun _ => _) = _
  rw [refused]
  rfl

/-- Within the range, setting many slots is setting one after the other. -/
theorem setMany_eq {text : String} {values : List Value}
    (read : Grammar.caller.read text = .ok types) (arity : values.length = types.length)
    (range : offset + types.length ≤ list.length) :
    list.setMany offset text values =
      (list.setEach offset ((types.map CompleteType.text).zip values)).map fun next =>
        (types.length, next) := by
  have all := encodeAll_of_read read arity.symm list.config
  have checked := checkRange_iff.2 range
  rw [setEach_eq (Grammar.read_element read) range, setMany, read]
  show (list.checkRange offset types.length >>= fun _ => _) = _
  rw [checked]
  show (encodeAll list.config text values >>= fun _ => _) = _
  cases encoded : encodeAll list.config text values with
  | error error =>
    rw [← all, encoded]
    rfl
  | ok args =>
    obtain ⟨types', read', count⟩ := length_of_encodeAll encoded
    cases read'.symm.trans read
    rw [← all, encoded, ← count]
    rfl

/-! ## Getting -/

theorem getEach_eq (single : ∀ type ∈ types, Grammar.caller.read type.text = .ok [type]) :
    list.getEach offset types =
      ((types.map CompleteType.text).zipIdx offset).mapM fun next => list.get next.2 next.1 := by
  induction types generalizing offset with
  | nil => rfl
  | cons type types ih =>
    rw [List.forall_mem_cons] at single
    rw [getEach_cons, List.map_cons, List.zipIdx_cons, List.mapM_cons, ih single.2]
    rfl

/-! ## Main result -/

/-- Setting and getting in bulk, with a signature of some elements. A range outside of the list is
refused whatever the values are. Within the list, `setMany` comes to what `set` comes to on one slot
after the other, and to the error of the first of these calls that fails; in place it then leaves
the list as it is, and not with the values before that one. `getMany` comes to the values that `get`
gives for the slots, or to the first error. -/
theorem bulk_eq_each (list : ArgList) (offset : Nat) (text : String) (elements : List String)
    (split : Grammar.caller.split text = .ok elements) :
    (list.length < offset → ∀ values,
      list.setMany offset text values = .error (.indexOutOfRange offset list.length)) ∧
    (offset ≤ list.length → list.length - offset < elements.length → ∀ values,
      list.setMany offset text values =
        .error (.truncated elements.length (list.length - offset))) ∧
    (offset ≤ list.length → elements.length ≤ list.length - offset →
      (∀ values, values.length = elements.length →
        list.setMany offset text values =
            (list.setEach offset (elements.zip values)).map (elements.length, ·) ∧
          ∀ word : UInt64, word.toNat = offset → list.length < UInt64.size →
            InPlace.Mirrors (InPlace.call (.setMany word text values)) list
              ((list.setEach offset (elements.zip values)).map (.count elements.length, ·))) ∧
      list.getMany offset text =
        (elements.zipIdx offset).mapM fun next => list.get next.2 next.1) := by
  obtain ⟨types, read, rfl⟩ := Grammar.split_ok_iff.1 split
  rw [List.length_map]
  refine ⟨fun outside values => ?_, fun inside short values => ?_, fun inside room => ?_⟩
  · refine setMany_of_checkRange read ?_ values
    rw [checkRange, if_pos outside]
  · refine setMany_of_checkRange read ?_ values
    rw [checkRange, if_neg (by omega), if_pos short]
  · have range : offset + types.length ≤ list.length := by omega
    refine ⟨fun values arity => ?_, ?_⟩
    · have made : list.setMany offset text values = _ := setMany_eq read arity range
      refine ⟨made, ?_⟩
      rintro word rfl fits
      have inPlace := InPlace.mirrors_call (.setMany word text values) fits
      rw [perform, made] at inPlace
      cases set : list.setEach word.toNat ((types.map CompleteType.text).zip values) <;>
        rw [set] at inPlace <;> exact inPlace
    · rw [getMany, read]
      show (list.checkRange offset types.length >>= fun _ => list.getEach offset types) = _
      rw [checkRange_iff.2 range]
      exact getEach_eq (Grammar.read_element read)

/-- One after the other, the first value would have been stored before the second one is refused. -/
theorem bulk_eq_each_refused :
    Grammar.caller.split "yb" = .ok ["y", "b"] ∧
      (empty 3 .standard).set 1 "y" (.atom (.byte 7)) =
        .ok ⟨[none, some (.scalar (.byte 7)), none], .standard⟩ ∧
      InPlace.Mirrors (InPlace.call (.setMany 1 "yb" [.atom (.byte 7), .atom (.byte 8)]))
        (empty 3 .standard) (.error (.typeMismatch "b" "byte")) ∧
      (empty 3 .standard).getMany 1 "yb" = .error (.emptySlot 1) := by
  obtain ⟨-, -, within⟩ := bulk_eq_each (empty 3 .standard) 1 "yb" ["y", "b"] rfl
  obtain ⟨sets, gets⟩ := within (by decide) (by decide)
  obtain ⟨-, inPlace⟩ := sets [.atom (.byte 7), .atom (.byte 8)] rfl
  exact ⟨rfl, rfl, inPlace 1 rfl (by decide), gets⟩

end ArgList

end MessageArgs
