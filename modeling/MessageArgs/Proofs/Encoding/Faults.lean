import MessageArgs.Proofs.Encoding.Conforming

/-!
# Values that fit

A value fits a type if each slot is given what its type asks for: an atom of the same kind, a
sequence or a map, as many members as a struct has, an argument for a variant. Nothing is asked of
the texts in it, of what its variants hold or of repeated keys.

Encoding such a value can still fail, for exactly these, and `Fault` lists them with their places.
That there is nothing else (`encodeAs_fault`) comes from `encodeAs_iff`: when all slots of a
container are encoded, the container conforms or shows the one condition that it misses.
-/

namespace MessageArgs.Encoding

open Signature (ofType)

/-- The atoms of the kind of a basic type. -/
def Suits : BasicType → Atom → Prop
  | .byte, .byte _ | .bool, .bool _ | .int16, .int16 _ | .uint16, .uint16 _ | .int32, .int32 _
  | .uint32, .uint32 _ | .int64, .int64 _ | .uint64, .uint64 _ | .double, .double _
  | .double, .single _ | .string, .string _ | .objectPath, .string _
  | .signature, .string _ => True
  | _, _ => False

/-- The values whose form is that of a type, slot by slot. -/
inductive Fits : CompleteType → Value → Prop
  | atom {type : BasicType} {atom : Atom} (suits : Suits type atom) :
      Fits (.basic type) (.atom atom)
  | arg (given : Argument) : Fits .variant (.arg given)
  | seq {element : CompleteType} {items : List Value} (other : element.tag ≠ .dictEntry)
      (each : ∀ item ∈ items, Fits element item) : Fits (.array element) (.seq items)
  | map {key : BasicType} {element : CompleteType} {pairs : List (Value × Value)}
      (keys : ∀ pair ∈ pairs, Fits (.basic key) pair.1)
      (values : ∀ pair ∈ pairs, Fits element pair.2) :
      Fits (.array (.entry key element)) (.map pairs)
  | struct {types : List CompleteType} {items : List Value} (arity : types.length = items.length)
      (each : ∀ slot ∈ types.zip items, Fits slot.1 slot.2) : Fits (.struct types) (.seq items)

/-- What a value that fits a type can be refused for. -/
inductive Fault (config : CodecConfig) : CompleteType → Value → CodecError → Prop
  /-- A text that should be an object path is none. -/
  | path {text : String} (checked : config.validateObjectPaths = true)
      (invalid : ObjectPath.isValid text = false) :
      Fault config (.basic .objectPath) (.atom (.string text)) (.invalidObjectPath text)
  /-- A text that should be a signature is none. -/
  | signature {text : String} {cause : SignatureError}
      (refused : Signature.parse text = .error cause) :
      Fault config (.basic .signature) (.atom (.string text)) (.signature cause)
  /-- A variant of an array holds something else than the first one. -/
  | contents {items : List Value} {first given : Argument} {index : Nat}
      (start : items[0]? = some (.arg first)) (later : items[index]? = some (.arg given))
      (different : given.content.signature ≠ first.content.signature) :
      Fault config (.array .variant) (.seq items)
        (.shapeMismatch
          (.contentType index given.content.signature.text first.content.signature.text))
  /-- A key has the fingerprint of one that comes before it. -/
  | repeated {key : BasicType} {element : CompleteType} {before after : List (Value × Value)}
      {pair other : Value × Value} (strict : config.duplicateKeys = .reject)
      (earlier : other ∈ before)
      (same : (keyScalar key other.1).fingerprint = (keyScalar key pair.1).fingerprint) :
      Fault config (.array (.entry key element)) (.map (before ++ pair :: after))
        (.duplicateKey (keyScalar key pair.1).fingerprint)
  | item {element : CompleteType} {items : List Value} {item : Value} {error : CodecError}
      (member : item ∈ items) (inside : Fault config element item error) :
      Fault config (.array element) (.seq items) error
  | key {key : BasicType} {element : CompleteType} {pairs : List (Value × Value)}
      {pair : Value × Value} {error : CodecError} (member : pair ∈ pairs)
      (inside : Fault config (.basic key) pair.1 error) :
      Fault config (.array (.entry key element)) (.map pairs) error
  | value {key : BasicType} {element : CompleteType} {pairs : List (Value × Value)}
      {pair : Value × Value} {error : CodecError} (member : pair ∈ pairs)
      (inside : Fault config element pair.2 error) :
      Fault config (.array (.entry key element)) (.map pairs) error
  | member {types : List CompleteType} {items : List Value} {slot : CompleteType × Value}
      {error : CodecError} (member : slot ∈ types.zip items)
      (inside : Fault config slot.1 slot.2 error) : Fault config (.struct types) (.seq items) error

variable {config : CodecConfig}

/-- The errors that are not about the form of a value. -/
def IsFault : CodecError → Prop
  | .invalidObjectPath _ | .signature _ | .shapeMismatch (.contentType ..) | .duplicateKey _ => True
  | _ => False

theorem Fault.isFault {type : CompleteType} {value : Value} {error : CodecError}
    (h : Fault config type value error) : IsFault error := by
  induction h with
  | path | signature | contents | repeated => trivial
  | item _ _ ih | key _ _ ih | value _ _ ih | member _ _ ih => exact ih

/-! ## Scalars -/

/-- An atom of the right kind is refused as a text only. -/
theorem encodeScalar_fault {type : BasicType} {atom : Atom} (suits : Suits type atom) :
    FailsFor (Fault config (.basic type) (.atom atom)) (encodeScalar config type (.atom atom)) := by
  intro error failed
  rw [encodeScalar, Scalar.ofValue] at failed
  cases type with
  | objectPath =>
    cases atom with
    | string text =>
      simp only [Scalar.ofAtom] at failed
      split at failed
      · rename_i refused
        rw [Bool.and_eq_true, Bool.not_eq_true'] at refused
        cases failed
        exact .path refused.1 refused.2
      · cases failed
    | _ => cases suits
  | signature =>
    cases atom with
    | string text =>
      simp only [Scalar.ofAtom] at failed
      cases parsed : Signature.parse text with
      | error cause =>
        rw [parsed] at failed
        cases failed
        exact .signature parsed
      | ok signature =>
        rw [parsed] at failed
        cases failed
    | _ => cases suits
  | _ => cases atom <;> first | (simp [Scalar.ofAtom] at failed; done) | cases suits

/-! ## Containers -/

/-- The first signature that differs is told with its place. -/
theorem firstDifference_eq_some {expected : Signature} {start : Nat} {found : List Signature}
    {fault : ShapeFault} (h : firstDifference expected start found = some fault) :
    ∃ index other, found[index]? = some other ∧ other ≠ expected ∧
      fault = .contentType (start + index) other.text expected.text := by
  induction found generalizing start with
  | nil => cases h
  | cons first rest ih =>
    rw [firstDifference] at h
    split at h
    · obtain ⟨index, other, present, different, rfl⟩ := ih h
      refine ⟨index + 1, other, present, different, ?_⟩
      rw [Nat.add_right_comm, Nat.add_assoc]
    · rename_i different
      cases h
      exact ⟨0, first, rfl, different, rfl⟩

/-- The contents of variants are refused for the first one that differs from the one in front. -/
theorem checkUniformContents_error {items : List Argument} {error : CodecError}
    (h : checkUniformContents items = .error error) :
    ∃ first index other, items[0]? = some first ∧ items[index]? = some other ∧
      other.content.signature ≠ first.content.signature ∧
      error = .shapeMismatch
        (.contentType index other.content.signature.text first.content.signature.text) := by
  have signatures : items.map contentSignature = items.map fun item => item.content.signature :=
    List.map_congr_left fun item _ => contentSignature_eq item
  rw [checkUniformContents, signatures] at h
  cases items with
  | nil => cases h
  | cons first rest =>
    rw [List.map_cons] at h
    dsimp only at h
    split at h
    · cases h
    · rename_i fault found
      cases h
      obtain ⟨index, _, present, different, rfl⟩ := firstDifference_eq_some found
      rw [List.getElem?_map, Option.map_eq_some_iff] at present
      obtain ⟨other, present, rfl⟩ := present
      refine ⟨first, index + 1, other, rfl, present, different, ?_⟩
      rw [Nat.add_comm]

/-- What is encoded in all slots conforms to them. -/
theorem conform_of_encoded {α : Type} {slots : List α} {type : α → CompleteType} {value : α → Value}
    {built : List Argument} (accepted : ∀ slot ∈ slots, Grammar.caller.Accepts (type slot))
    (encoded : slots.mapM (fun slot => encodeAs config (type slot) (value slot)) = .ok built) :
    (∀ slot ∈ slots, Conforms config (type slot) (value slot)) ∧
      built = slots.map fun slot => tree (type slot) (value slot) :=
  (forall₂_ok_iff fun slot member _ => encodeAs_iff (accepted slot member)).1
    (mapM_ok_iff.1 encoded)

/-- A value that is refused does not conform. -/
theorem not_conforms_of_error {type : CompleteType} {value : Value} {error : CodecError}
    (accepted : Grammar.caller.Accepts type) (failed : encodeAs config type value = .error error) :
    ¬ Conforms config type value := by
  intro conforms
  rw [(encodeAs_iff accepted).2 ⟨conforms, rfl⟩] at failed
  cases failed

/-- A sequence whose items conform can only be refused as an array of variants, which asks for
contents of one type as well. -/
theorem encodeAs_seq_fault {element : CompleteType} {items : List Value}
    (accepted : Grammar.caller.Accepts (.array element)) (other : element.tag ≠ .dictEntry)
    (each : ∀ item ∈ items, FailsFor (Fault config element item) (encodeAs config element item)) :
    FailsFor (Fault config (.array element) (.seq items))
      (encodeAs config (.array element) (.seq items)) := by
  intro error failed
  have unfit := not_conforms_of_error accepted failed
  rw [encodeAs_array_seq other, bind_error_iff] at failed
  rcases failed with inside | ⟨built, encoded, refused⟩
  · refine failsFor_mapM (fun item member error failed => ?_) error inside
    exact .item member (each item member error failed)
  · obtain ⟨conform, rfl⟩ := conform_of_encoded (fun _ _ => accepted.element other) encoded
    have variant : element = .variant := by
      by_contra single
      exact unfit ((conforms_seq_iff other).2 ⟨conform, fun same => absurd same single⟩)
    subst variant
    rcases bind_error_iff.1 refused with mixed | ⟨_, uniform, _⟩
    · obtain ⟨_, index, _, start, later, different, rfl⟩ := checkUniformContents_error mixed
      have carried : ∀ {place : Nat} {arg : Argument},
          (items.map fun item => tree .variant item)[place]? = some arg →
          ∃ given, items[place]? = some (.arg given) ∧ .variant given.content = arg := by
        intro place arg present
        rw [List.getElem?_map, Option.map_eq_some_iff] at present
        obtain ⟨item, present, rfl⟩ := present
        have conforms := conform item (List.mem_of_getElem? present)
        cases item with
        | arg given => exact ⟨given, present, rfl⟩
        | _ => cases conforms
      obtain ⟨first, front, rfl⟩ := carried start
      obtain ⟨given, found, rfl⟩ := carried later
      have fault : Fault config _ _ _ := .contents front found different
      exact fault
    · have agreed := (uniformContents_tree_iff conform).1 (checkUniformContents_iff.1 uniform)
      exact absurd ((conforms_seq_iff other).2 ⟨conform, fun _ => agreed⟩) unfit

/-- A pair is refused for its key or for its value, since an entry is made of any two of them. -/
theorem encodeEntry_fault {key : BasicType} {element : CompleteType} {pairs : List (Value × Value)}
    {pair : Value × Value} (accepted : Grammar.stored.Accepts (.entry key element))
    (member : pair ∈ pairs) (fits : Fits (.basic key) pair.1)
    (value : FailsFor (Fault config element pair.2) (encodeAs config element pair.2)) :
    FailsFor (Fault config (.array (.entry key element)) (.map pairs))
      (encodeEntry config key element pair) := by
  have name : FailsFor (Fault config (.basic key) pair.1) (encodeKey config key pair.1) := by
    obtain ⟨first, second⟩ := pair
    cases fits with
    | atom suits => exact encodeScalar_fault suits
  have inside : Grammar.caller.Accepts element := Grammar.accepts_value accepted id
  intro error failed
  rcases bind_error_iff.1 failed with refused | ⟨_, named, later⟩
  · exact .key member (name error refused)
  rcases bind_error_iff.1 later with refused | ⟨_, encoded, -⟩
  · exact .value member (value error refused)
  have goodKey := (encodeKey_iff.1 named).1
  have good := ((encodeAs_iff inside).1 encoded).1
  have made := (encodeEntry_conforming_iff accepted (exact_of_accepts inside)).2
    ⟨⟨goodKey, good⟩, rfl⟩
  rw [failed] at made
  cases made

/-- A map whose pairs conform can only be refused for a key that comes twice. -/
theorem encodeAs_map_fault {key : BasicType} {element : CompleteType} {pairs : List (Value × Value)}
    (accepted : Grammar.caller.Accepts (.array (.entry key element)))
    (keys : ∀ pair ∈ pairs, Fits (.basic key) pair.1)
    (values : ∀ pair ∈ pairs,
      FailsFor (Fault config element pair.2) (encodeAs config element pair.2)) :
    FailsFor (Fault config (.array (.entry key element)) (.map pairs))
      (encodeAs config (.array (.entry key element)) (.map pairs)) := by
  intro error failed
  have unfit := not_conforms_of_error accepted failed
  rw [encodeAs_dictionary_map, bind_error_iff] at failed
  rcases failed with inside | ⟨keyed, encoded, refused⟩
  · refine failsFor_mapM (fun pair member => ?_) error inside
    exact encodeEntry_fault accepted.entry member (keys pair member) (values pair member)
  · obtain ⟨conform, rfl⟩ := (forall₂_ok_iff fun pair _ keyed =>
      encodeEntry_conforming_iff accepted.entry (exact_of_accepts accepted.content)).1
        (mapM_ok_iff.1 encoded)
    obtain ⟨strict, repeats⟩ : config.duplicateKeys = .reject ∧
        ¬ (pairs.map fun pair => (keyScalar key pair.1).fingerprint).Nodup := by
      by_contra distinct
      exact unfit ⟨conform, fun strict => by_contra fun repeats => distinct ⟨strict, repeats⟩⟩
    rcases bind_error_iff.1 refused with again | ⟨_, kept, -⟩
    · rw [strict, DuplicateKeys.reject_error_iff] at again
      obtain ⟨_, _, _, split, -, known, rfl⟩ := again
      obtain ⟨before, rest, rfl, rfl, second⟩ := List.map_eq_append_iff.1 split
      obtain ⟨pair, after, rfl, rfl, rfl⟩ := List.map_eq_cons_iff.1 second
      rw [List.map_map, List.mem_map] at known
      obtain ⟨other, earlier, same⟩ := known
      exact .repeated strict earlier same
    · have distinct := (DuplicateKeys.apply_iff.1 kept).1 strict
      rw [List.map_map] at distinct
      exact absurd distinct repeats

theorem encodeAs_members_fault {types : List CompleteType} {items : List Value}
    (accepted : Grammar.caller.Accepts (.struct types)) (arity : types.length = items.length)
    (each : ∀ slot ∈ types.zip items,
      FailsFor (Fault config slot.1 slot.2) (encodeAs config slot.1 slot.2)) :
    FailsFor (Fault config (.struct types) (.seq items))
      (encodeAs config (.struct types) (.seq items)) := by
  intro error failed
  have unfit := not_conforms_of_error accepted failed
  rw [encodeAs, keepArgument, if_neg (not_not.2 arity), bind_error_iff, encodeMembers_eq] at failed
  · rcases failed with inside | ⟨built, encoded, -⟩
    · refine failsFor_mapM (fun slot member error failed => ?_) error inside
      exact .member member (each slot member error failed)
    · obtain ⟨conform, -⟩ := conform_of_encoded (fun slot member =>
        accepted.member (List.of_mem_zip member).1) encoded
      exact absurd (allConform_iff.2 ⟨arity, conform⟩) unfit
  · rintro _ ⟨⟩

/-- A value that fits is encoded or refused for one of its faults. -/
theorem encodeAs_fault {type : CompleteType} {value : Value}
    (accepted : Grammar.caller.Accepts type) (fits : Fits type value) :
    FailsFor (Fault config type value) (encodeAs config type value) := by
  induction fits with
  | atom suits => exact (encodeScalar_fault suits).map _
  | arg given => cases given <;> exact failsFor_ok _
  | seq other each ih =>
    exact encodeAs_seq_fault accepted other fun item member =>
      ih item member (accepted.element other)
  | map keys values _ ih =>
    exact encodeAs_map_fault accepted keys fun pair member => ih pair member accepted.content
  | struct arity each ih =>
    exact encodeAs_members_fault accepted arity fun slot member =>
      ih slot member (accepted.member (List.of_mem_zip member).1)

end MessageArgs.Encoding
