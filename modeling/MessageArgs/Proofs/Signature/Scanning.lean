import MessageArgs.Proofs.Signature.Derivation

/-!
# The reader of signatures against the grammar

A `Scan` that has been reached without an error spells what has been read, and all that it holds
is within the grammar: this is `Scan.Valid`, which every step keeps (`step_sound`). So a run that
ends well has read the spellings of admitted types (`run_sound`). In the other direction the
reader takes in the spelling of any type that fits under the stack, and then the type is complete
(`run_chars`). Together they say which texts are read, and as what (`run_initial_iff`).
-/

namespace MessageArgs

open MessageArgs.CompleteType (Shaped AllShaped nesting nestingOfAll chars charsAll)

theorem CompleteType.charsAll_append (types types' : List CompleteType) :
    charsAll (types ++ types') = charsAll types ++ charsAll types' := by
  induction types with
  | nil => simp [charsAll]
  | cons type types ih => simp [charsAll, ih]

@[simp]
theorem BasicType.ofCode?_code (type : BasicType) : ofCode? type.code = some type := by
  cases type <;> rfl

theorem BasicType.code_of_ofCode? {c : Char} {type : BasicType} (h : ofCode? c = some type) :
    type.code = c := by
  have := List.find?_some h
  simpa using this

namespace Frame

/-! ## Stacks -/

/-- The kind of nesting that a frame counts for. -/
def nesting : Frame → Nesting
  | array _ => .array
  | struct .. => .struct
  | entry .. => .struct

/-- The number of frames of one kind that are open. -/
def opened (kind : Nesting) (stack : List Frame) : Nat :=
  (stack.map nesting).count kind

@[simp]
theorem opened_cons (kind : Nesting) (frame : Frame) (stack : List Frame) :
    opened kind (frame :: stack) = opened kind stack + [frame.nesting].count kind := by
  rw [opened, opened, List.map_cons, List.count_cons, List.count_singleton]

theorem opened_array (stack : List Frame) : opened .array stack = arrays stack := by
  induction stack with
  | nil => rfl
  | cons frame stack ih =>
    rw [opened_cons, ih, arrays, arrays, List.countP_cons]
    cases frame <;> rfl

theorem opened_struct (stack : List Frame) : opened .struct stack = structs stack := by
  induction stack with
  | nil => rfl
  | cons frame stack ih =>
    rw [opened_cons, ih, structs, structs, List.countP_cons]
    cases frame <;> rfl

/-- What has been read of the construct that a frame stands for. -/
def spelling : Frame → List Char
  | array _ => ['a']
  | struct _ members => '(' :: charsAll members.reverse
  | entry _ key => ['{', key.code]

/-- What has been read of the constructs that are open, from the outermost one on. -/
def spellingOfAll : List Frame → List Char
  | [] => []
  | frame :: stack => spellingOfAll stack ++ frame.spelling

/-- Whether an entry may stand directly under a stack. -/
def entryWelcome (grammar : Grammar) : List Frame → Bool
  | [] => grammar.bareEntry
  | array _ :: _ => true
  | _ => false

/-- A type may stand directly under a stack. -/
def Fits (grammar : Grammar) (stack : List Frame) (type : CompleteType) : Prop :=
  Shaped grammar.wildcard (entryWelcome grammar stack) type ∧
    ∀ kind, opened kind stack + CompleteType.nesting kind type ≤ kind.limit

/-- The limits allow one more frame. -/
def HasRoom (stack : List Frame) (container : Nesting) : Prop :=
  ∀ kind, opened kind stack + [container].count kind ≤ kind.limit

/-- The frames of a stack are within the grammar. -/
def Valid (grammar : Grammar) : List Frame → Prop
  | [] => True
  | array _ :: stack => Valid grammar stack ∧ HasRoom stack .array
  | struct start members :: stack =>
    Valid grammar stack ∧ HasRoom stack .struct ∧
      ∀ type ∈ members, Fits grammar (struct start members :: stack) type
  | entry _ _ :: stack =>
    Valid grammar stack ∧ HasRoom stack .struct ∧ entryWelcome grammar stack = true

theorem Valid.opened_le {grammar : Grammar} {stack : List Frame} (h : Valid grammar stack)
    (kind : Nesting) : opened kind stack ≤ kind.limit := by
  cases stack with
  | nil => exact Nat.zero_le _
  | cons frame stack =>
    rw [opened_cons]
    cases frame with
    | array => exact h.2 kind
    | struct => exact h.2.1 kind
    | entry => exact h.2.1 kind

/-- One kind of nesting has to be watched when a frame is put on. -/
theorem hasRoom_iff {grammar : Grammar} {stack : List Frame} (h : Valid grammar stack)
    (container : Nesting) : HasRoom stack container ↔ opened container stack < container.limit := by
  constructor
  · intro room
    have := room container
    rw [List.count_singleton_self] at this
    omega
  · intro lt kind
    by_cases same : container = kind
    · subst same
      rw [List.count_singleton_self]
      omega
    · have := h.opened_le kind
      rw [List.count_singleton]
      simp only [beq_iff_eq, same, if_false]
      omega

/-- A type without parts fits wherever its character is allowed. -/
theorem Valid.fits_leaf {grammar : Grammar} {stack : List Frame} (h : Valid grammar stack)
    {type : CompleteType} (shaped : Shaped grammar.wildcard (entryWelcome grammar stack) type)
    (flat : ∀ kind, CompleteType.nesting kind type = 0) : Fits grammar stack type := by
  refine ⟨shaped, fun kind => ?_⟩
  rw [flat]
  exact h.opened_le kind

/-- No member of an open struct is nested deeper than the struct leaves room for. -/
theorem nestingOfAll_members_le {grammar : Grammar} {start : Nat} {members : List CompleteType}
    {outer : List Frame} (valid : Valid grammar (struct start members :: outer)) (kind : Nesting) :
    nestingOfAll kind members.reverse ≤
      kind.limit - opened kind (struct start members :: outer) := by
  rw [CompleteType.nestingOfAll_le_iff]
  intro type member
  have fits := (valid.2.2 type (List.mem_reverse.1 member)).2 kind
  omega

/-- The members of an open struct make up a struct that fits where it was opened. -/
theorem fits_struct {grammar : Grammar} {start : Nat} {members : List CompleteType}
    {outer : List Frame} (valid : Valid grammar (struct start members :: outer))
    (nonempty : members.reverse ≠ []) : Fits grammar outer (.struct members.reverse) := by
  have room := valid.2.1
  refine ⟨?_, fun kind => ?_⟩
  · rw [Shaped, CompleteType.allShaped_iff]
    refine ⟨nonempty, fun type member => ?_⟩
    exact (valid.2.2 type (List.mem_reverse.1 member)).1
  · have inner := nestingOfAll_members_le valid kind
    have := room kind
    rw [opened_cons, nesting] at inner
    rw [CompleteType.nesting]
    omega

section Contents

variable {grammar : Grammar} {stack : List Frame} {start : Nat}

/-- A container that fits under a stack finds room there. -/
theorem Fits.room {type : CompleteType} {container : Nesting} (fits : Fits grammar stack type)
    (counted : 0 < CompleteType.nesting container type) :
    opened container stack < container.limit := by
  have := fits.2 container
  omega

/-- The parts of a container that fits under a stack fit under the frame of the container. -/
theorem Fits.element {element : CompleteType} (fits : Fits grammar stack (.array element)) :
    Fits grammar (.array start :: stack) element := by
  have shaped := fits.1
  rw [Shaped] at shaped
  refine ⟨shaped, fun kind => ?_⟩
  have whole := fits.2 kind
  rw [CompleteType.nesting] at whole
  rw [opened_cons, nesting]
  omega

theorem Fits.member {types read : List CompleteType} {type : CompleteType}
    (fits : Fits grammar stack (.struct types)) (member : type ∈ types) :
    Fits grammar (.struct start read :: stack) type := by
  have shaped := fits.1
  rw [Shaped, CompleteType.allShaped_iff] at shaped
  refine ⟨shaped.2 type member, fun kind => ?_⟩
  have whole := fits.2 kind
  have part := CompleteType.nesting_le_nestingOfAll kind member
  rw [CompleteType.nesting] at whole
  rw [opened_cons, nesting]
  omega

theorem Fits.value {key : BasicType} {value : CompleteType}
    (fits : Fits grammar stack (.entry key value)) :
    Fits grammar (.entry start key :: stack) value := by
  have shaped := fits.1
  rw [Shaped] at shaped
  refine ⟨shaped.2, fun kind => ?_⟩
  have whole := fits.2 kind
  rw [CompleteType.nesting] at whole
  rw [opened_cons, nesting]
  omega

end Contents

end Frame

/-- The characters that open a construct of some kind. -/
def Nesting.openings : Nesting → List Char
  | array => ['a']
  | struct => ['(', '{']

/-- An error is about the character `c` at a position. -/
def SignatureError.Names (c : Char) (offset : Nat) : SignatureError → Prop
  | unknownTag tag position => tag = c ∧ position = offset
  | unexpectedClose closing position => closing = c ∧ position = offset
  | invalidKey key position => key = c ∧ position = offset
  | entryOutsideArray position => c = '{' ∧ position = offset
  | wildcardNotAllowed position => c = '*' ∧ position = offset
  | tooDeep nesting max position =>
    c ∈ nesting.openings ∧ max = nesting.limit ∧ position = offset
  | _ => False

namespace Scan

open MessageArgs.Frame (Fits HasRoom opened spellingOfAll entryWelcome)

/-! ## What a state says -/

/-- What has been read. -/
def spelling : Scan → List Char
  | awaitElement stack done => charsAll done.reverse ++ spellingOfAll stack
  | awaitKey _ stack done => charsAll done.reverse ++ spellingOfAll stack ++ ['{']
  | awaitClose _ key value stack done =>
    charsAll done.reverse ++ spellingOfAll stack ++ '{' :: key.code :: value.chars

/-- All that a state holds is within the grammar. -/
def Valid (grammar : Grammar) : Scan → Prop
  | awaitElement stack done => (∀ type ∈ done, grammar.Admits type) ∧ Frame.Valid grammar stack
  | awaitKey _ stack done =>
    (∀ type ∈ done, grammar.Admits type) ∧ Frame.Valid grammar stack ∧
      HasRoom stack .struct ∧ entryWelcome grammar stack = true
  | awaitClose _ key value stack done =>
    (∀ type ∈ done, grammar.Admits type) ∧ Frame.Valid grammar stack ∧
      Fits grammar stack (.entry key value)

theorem complete_spelling (type : CompleteType) (stack : List Frame) (done : List CompleteType) :
    (complete type stack done).spelling =
      charsAll done.reverse ++ spellingOfAll stack ++ type.chars := by
  induction stack generalizing type with
  | nil => simp [complete, spelling, spellingOfAll, CompleteType.charsAll_append, charsAll]
  | cons frame stack ih =>
    cases frame with
    | array => simp [complete, ih, spellingOfAll, Frame.spelling, chars]
    | struct =>
      simp [complete, spelling, spellingOfAll, Frame.spelling, CompleteType.charsAll_append,
        charsAll]
    | entry => simp [complete, spelling, spellingOfAll, Frame.spelling]

/-- A type that fits leaves a valid state when it is completed. It completes the array around it, is
one more member of the struct around it, whatever members that has, or waits for the bracket that
closes its entry. -/
theorem complete_valid {grammar : Grammar} {type : CompleteType} {stack : List Frame}
    {done : List CompleteType} (admitted : ∀ type ∈ done, grammar.Admits type)
    (valid : Frame.Valid grammar stack) (fits : Fits grammar stack type) :
    (complete type stack done).Valid grammar := by
  induction stack generalizing type with
  | nil =>
    refine ⟨?_, trivial⟩
    rw [List.forall_mem_cons]
    refine ⟨⟨fits.1, fun kind => ?_⟩, admitted⟩
    have := fits.2 kind
    rwa [opened, List.map_nil, List.count_nil, Nat.zero_add] at this
  | cons frame stack ih =>
    cases frame with
    | array start =>
      refine ih valid.1 ⟨by rw [Shaped]; exact fits.1, fun kind => ?_⟩
      have := fits.2 kind
      rw [Frame.opened_cons, Frame.nesting] at this
      rw [nesting]
      omega
    | struct start members =>
      refine ⟨admitted, valid.1, valid.2.1, ?_⟩
      rw [List.forall_mem_cons]
      exact ⟨fits, valid.2.2⟩
    | entry start key =>
      refine ⟨admitted, valid.1, ⟨?_, fun kind => ?_⟩⟩
      · rw [Shaped]
        exact ⟨valid.2.2, fits.1⟩
      · have := fits.2 kind
        rw [Frame.opened_cons, Frame.nesting] at this
        rw [nesting]
        omega

/-! ## Steps -/

/-- What comes of a character in a state. -/
inductive Effect (grammar : Grammar) (offset : Nat) :
    Scan → Char → Except SignatureError Scan → Prop
  | leaf {type : CompleteType} {c : Char} {stack : List Frame} {done : List CompleteType}
      (spelled : type.chars = [c]) (shaped : Shaped grammar.wildcard false type)
      (flat : ∀ kind, nesting kind type = 0) :
    Effect grammar offset (awaitElement stack done) c (.ok (complete type stack done))
  | openArray {stack : List Frame} {done : List CompleteType}
      (room : Frame.arrays stack < maxArrays) :
    Effect grammar offset (awaitElement stack done) 'a'
      (.ok (awaitElement (.array offset :: stack) done))
  | openStruct {stack : List Frame} {done : List CompleteType}
      (room : Frame.structs stack < maxStructs) :
    Effect grammar offset (awaitElement stack done) '('
      (.ok (awaitElement (.struct offset [] :: stack) done))
  | openEntry {stack : List Frame} {done : List CompleteType}
      (room : Frame.structs stack < maxStructs) (welcome : entryWelcome grammar stack = true) :
    Effect grammar offset (awaitElement stack done) '{' (.ok (awaitKey offset stack done))
  | key {start : Nat} (key : BasicType) {stack : List Frame} {done : List CompleteType} :
    Effect grammar offset (awaitKey start stack done) key.code
      (.ok (awaitElement (.entry start key :: stack) done))
  | closeStruct {start : Nat} {members : List CompleteType} {stack : List Frame}
      {done : List CompleteType} (nonempty : members.reverse ≠ []) :
    Effect grammar offset (awaitElement (.struct start members :: stack) done) ')'
      (.ok (complete (.struct members.reverse) stack done))
  | closeEntry {start : Nat} {key : BasicType} {value : CompleteType} {stack : List Frame}
      {done : List CompleteType} :
    Effect grammar offset (awaitClose start key value stack done) '}'
      (.ok (complete (.entry key value) stack done))
  | refused {scan : Scan} {c : Char} {error : SignatureError} (named : error.Names c offset) :
    Effect grammar offset scan c (.error error)
  | emptyStruct {start : Nat} {stack : List Frame} {done : List CompleteType} :
    Effect grammar offset (awaitElement (.struct start [] :: stack) done) ')'
      (.error (.emptyStruct start))
  | noKey {start : Nat} {stack : List Frame} {done : List CompleteType} :
    Effect grammar offset (awaitKey start stack done) '}' (.error (.invalidEntry start))
  | noValue {start : Nat} {key : BasicType} {stack : List Frame} {done : List CompleteType} :
    Effect grammar offset (awaitElement (.entry start key :: stack) done) '}'
      (.error (.invalidEntry start))
  | secondValue {start : Nat} {key : BasicType} {value : CompleteType} {stack : List Frame}
      {done : List CompleteType} {c : Char} :
    Effect grammar offset (awaitClose start key value stack done) c (.error (.invalidEntry start))

section Effects

variable (grammar : Grammar) (offset : Nat) (stack : List Frame) (done : List CompleteType)

theorem openArray_effect :
    Effect grammar offset (awaitElement stack done) 'a' (openArray offset stack done) := by
  rw [openArray]
  split
  · rename_i room
    exact .openArray room
  · exact .refused ⟨by decide, rfl, rfl⟩

theorem openStruct_effect :
    Effect grammar offset (awaitElement stack done) '(' (openStruct offset stack done) := by
  rw [openStruct]
  split
  · rename_i room
    exact .openStruct room
  · exact .refused ⟨by decide, rfl, rfl⟩

theorem openEntry_effect (welcome : entryWelcome grammar stack = true) :
    Effect grammar offset (awaitElement stack done) '{' (openEntry offset stack done) := by
  rw [openEntry]
  split
  · rename_i room
    exact .openEntry room welcome
  · exact .refused ⟨by decide, rfl, rfl⟩

theorem beginElement_effect (c : Char) :
    Effect grammar offset (awaitElement stack done) c
      (beginElement grammar offset c stack done) := by
  rw [beginElement]
  split
  · rename_i hc
    rw [hc]
    exact openArray_effect grammar offset stack done
  split
  · rename_i hc
    rw [hc]
    exact openStruct_effect grammar offset stack done
  split
  · rename_i hc
    exact .refused ⟨hc, rfl⟩
  split
  · exact .refused ⟨rfl, rfl⟩
  split
  · rename_i hc
    split
    · rename_i allowed
      refine .leaf (by rw [chars, hc]) ?_ fun kind => by rw [nesting]
      simpa only [Shaped] using allowed
    · exact .refused ⟨hc, rfl⟩
  split
  · rename_i hc
    exact .leaf (by rw [chars, hc]) (by simp only [Shaped]) fun kind => by rw [nesting]
  split
  · rename_i type found
    refine .leaf ?_ (by simp only [Shaped]) fun kind => by rw [nesting]
    rw [chars, BasicType.code_of_ofCode? found]
  · exact .refused ⟨rfl, rfl⟩

theorem elementStep_effect (c : Char) :
    Effect grammar offset (awaitElement stack done) c
      (elementStep grammar offset c stack done) := by
  unfold elementStep
  split
  · split
    · rename_i bare
      rw [bare.2]
      exact openEntry_effect grammar offset [] done bare.1
    · exact beginElement_effect grammar offset [] done c
  · split
    · rename_i hc
      rw [hc]
      exact openEntry_effect grammar offset _ done rfl
    · exact beginElement_effect grammar offset _ done c
  · rename_i start members outer
    split
    · rename_i hc
      rw [hc]
      split
      · rename_i hollow
        rw [List.isEmpty_iff] at hollow
        rw [hollow]
        exact .emptyStruct
      · rename_i nonempty
        exact .closeStruct (by simpa using nonempty)
    · exact beginElement_effect grammar offset _ done c
  · split
    · rename_i hc
      rw [hc]
      exact .noValue
    · exact beginElement_effect grammar offset _ done c

theorem keyStep_effect (start : Nat) (c : Char) :
    Effect grammar offset (awaitKey start stack done) c (keyStep start offset c stack done) := by
  rw [keyStep]
  split
  · rename_i hc
    rw [hc]
    exact .noKey
  split
  · rename_i key found
    rw [← BasicType.code_of_ofCode? found]
    exact .key key
  · exact .refused ⟨rfl, rfl⟩

end Effects

/-- Every step has one of the effects. -/
theorem step_effect (grammar : Grammar) (offset : Nat) (c : Char) (scan : Scan) :
    Effect grammar offset scan c (scan.step grammar offset c) := by
  cases scan with
  | awaitElement stack done => exact elementStep_effect grammar offset stack done c
  | awaitKey start stack done => exact keyStep_effect grammar offset stack done start c
  | awaitClose start key value stack done =>
    rw [step]
    split
    · rename_i hc
      rw [hc]
      exact .closeEntry
    · exact .secondValue

/-! ## Soundness -/

/-- Every step reads its character and stays within the grammar. -/
theorem step_sound {grammar : Grammar} {offset : Nat} {c : Char} {scan next : Scan}
    (h : scan.step grammar offset c = .ok next) (valid : scan.Valid grammar) :
    next.Valid grammar ∧ next.spelling = scan.spelling ++ [c] := by
  have effect := step_effect grammar offset c scan
  rw [h] at effect
  cases effect with
  | leaf spelled shaped flat =>
    refine ⟨complete_valid valid.1 valid.2 (valid.2.fits_leaf shaped.welcome flat), ?_⟩
    rw [complete_spelling, spelled, spelling]
  | openArray room =>
    refine ⟨⟨valid.1, valid.2, ?_⟩, by simp [spelling, spellingOfAll, Frame.spelling]⟩
    rw [Frame.hasRoom_iff valid.2, Frame.opened_array]
    exact room
  | openStruct room =>
    refine ⟨⟨valid.1, valid.2, ?_, by simp⟩, ?_⟩
    · rw [Frame.hasRoom_iff valid.2, Frame.opened_struct]
      exact room
    · simp [spelling, spellingOfAll, Frame.spelling, charsAll]
  | openEntry room welcome =>
    refine ⟨⟨valid.1, valid.2, ?_, welcome⟩, by simp [spelling]⟩
    rw [Frame.hasRoom_iff valid.2, Frame.opened_struct]
    exact room
  | key key =>
    obtain ⟨admitted, stackValid, room, welcome⟩ := valid
    refine ⟨⟨admitted, stackValid, room, welcome⟩, ?_⟩
    simp [spelling, spellingOfAll, Frame.spelling]
  | closeStruct nonempty =>
    refine ⟨complete_valid valid.1 valid.2.1 (Frame.fits_struct valid.2 nonempty), ?_⟩
    rw [complete_spelling]
    simp [spelling, spellingOfAll, Frame.spelling, chars]
  | closeEntry =>
    refine ⟨complete_valid valid.1 valid.2.1 valid.2.2, ?_⟩
    rw [complete_spelling]
    simp [spelling, chars]

theorem finish_sound {grammar : Grammar} {scan : Scan} {types : List CompleteType}
    (h : scan.finish = .ok types) (valid : scan.Valid grammar) :
    charsAll types = scan.spelling ∧ ∀ type ∈ types, grammar.Admits type := by
  unfold finish at h
  split at h
  · cases h
    refine ⟨by simp [spelling, spellingOfAll], fun type member => ?_⟩
    exact valid.1 type (by simpa using member)
  all_goals cases h

/-- What is read is a spelling of admitted types. -/
theorem run_sound {grammar : Grammar} {scan : Scan} {offset : Nat} {text : List Char}
    {types : List CompleteType} (h : run grammar scan offset text = .ok types)
    (valid : scan.Valid grammar) :
    charsAll types = scan.spelling ++ text ∧ ∀ type ∈ types, grammar.Admits type := by
  induction text generalizing scan offset with
  | nil =>
    rw [run] at h
    rw [List.append_nil]
    exact finish_sound h valid
  | cons c rest ih =>
    rw [run] at h
    split at h
    · rename_i next stepped
      obtain ⟨nextValid, nextSpelling⟩ := step_sound stepped valid
      obtain ⟨spelled, admitted⟩ := ih h nextValid
      refine ⟨?_, admitted⟩
      rw [spelled, nextSpelling, List.append_assoc, List.singleton_append]
    · cases h

/-! ## Completeness -/

/-- A character that opens no entry and closes nothing is the beginning of an element. -/
theorem elementStep_eq_beginElement {grammar : Grammar} {offset : Nat} {c : Char}
    {stack : List Frame} {done : List CompleteType} (entry : c ≠ '{') (struct : c ≠ ')')
    (close : c ≠ '}') :
    elementStep grammar offset c stack done = beginElement grammar offset c stack done := by
  rw [elementStep.eq_def]
  split
  · rw [if_neg (by simp [entry])]
  · rw [if_neg entry]
  · rw [if_neg struct]
  · rw [if_neg close]

theorem elementStep_code (grammar : Grammar) (offset : Nat) (type : BasicType)
    (stack : List Frame) (done : List CompleteType) :
    elementStep grammar offset type.code stack done = .ok (complete (.basic type) stack done) := by
  rw [elementStep_eq_beginElement (by cases type <;> decide) (by cases type <;> decide)
    (by cases type <;> decide)]
  cases type <;> rfl

theorem elementStep_open {grammar : Grammar} {offset : Nat} {stack : List Frame}
    {done : List CompleteType} (welcome : entryWelcome grammar stack = true) :
    elementStep grammar offset '{' stack done = openEntry offset stack done := by
  cases stack with
  | nil => simp [elementStep, show grammar.bareEntry = true from welcome]
  | cons frame stack =>
    cases frame with
    | array => simp [elementStep]
    | struct => cases welcome
    | entry => cases welcome

section Opening

variable {grammar : Grammar} {stack : List Frame} (done : List CompleteType) (offset : Nat)

theorem step_openArray {element : CompleteType} (fits : Fits grammar stack (.array element)) :
    step grammar offset 'a' (awaitElement stack done) =
      .ok (awaitElement (.array offset :: stack) done) := by
  have room : Frame.arrays stack < maxArrays := by
    rw [← Frame.opened_array]
    exact fits.room (by rw [nesting]; simp)
  rw [step, elementStep_eq_beginElement (by decide) (by decide) (by decide)]
  simp [beginElement, openArray, room]

theorem step_openStruct {types : List CompleteType} (fits : Fits grammar stack (.struct types)) :
    step grammar offset '(' (awaitElement stack done) =
      .ok (awaitElement (.struct offset [] :: stack) done) := by
  have room : Frame.structs stack < maxStructs := by
    rw [← Frame.opened_struct]
    exact fits.room (by rw [nesting]; simp)
  rw [step, elementStep_eq_beginElement (by decide) (by decide) (by decide)]
  simp [beginElement, openStruct, room]

theorem step_openEntry {key : BasicType} {value : CompleteType}
    (fits : Fits grammar stack (.entry key value)) :
    step grammar offset '{' (awaitElement stack done) = .ok (awaitKey offset stack done) := by
  have room : Frame.structs stack < maxStructs := by
    rw [← Frame.opened_struct]
    exact fits.room (by rw [nesting]; simp)
  have shaped := fits.1
  rw [Shaped] at shaped
  rw [step, elementStep_open shaped.1, openEntry, if_pos room]

theorem step_key (start : Nat) (key : BasicType) :
    step grammar offset key.code (awaitKey start stack done) =
      .ok (awaitElement (.entry start key :: stack) done) := by
  rw [step, keyStep, if_neg (by cases key <;> decide), BasicType.ofCode?_code]

end Opening

theorem run_of_step {grammar : Grammar} {scan next : Scan} {offset : Nat} {c : Char}
    (h : scan.step grammar offset c = .ok next) (rest : List Char) :
    run grammar scan offset (c :: rest) = run grammar next (offset + 1) rest := by
  rw [run, h]

mutual

/-- The spelling of a type that fits is taken in as that type. -/
theorem run_chars {grammar : Grammar} : (type : CompleteType) → (stack : List Frame) →
    (done : List CompleteType) → (offset : Nat) → (rest : List Char) → Fits grammar stack type →
    run grammar (awaitElement stack done) offset (type.chars ++ rest) =
      run grammar (complete type stack done) (offset + type.chars.length) rest
  | .basic type, stack, done, offset, rest, _ => by
    rw [chars, List.singleton_append, List.length_singleton]
    refine run_of_step ?_ rest
    exact elementStep_code grammar offset type stack done
  | .variant, stack, done, offset, rest, _ => by
    rw [chars, List.singleton_append, List.length_singleton]
    refine run_of_step ?_ rest
    exact elementStep_eq_beginElement (by decide) (by decide) (by decide)
  | .wildcard, stack, done, offset, rest, fits => by
    have allowed : grammar.wildcard = true := by simpa only [Shaped] using fits.1
    rw [chars, List.singleton_append, List.length_singleton]
    refine run_of_step ?_ rest
    rw [step, elementStep_eq_beginElement (by decide) (by decide) (by decide)]
    simp [beginElement, allowed]
  | .array element, stack, done, offset, rest, fits => by
    rw [chars, List.cons_append, run_of_step (step_openArray done offset fits),
      run_chars element (.array offset :: stack) done (offset + 1) rest fits.element, complete,
      List.length_cons, Nat.add_assoc, Nat.add_comm 1]
  | .struct members, stack, done, offset, rest, fits => by
    have shaped := fits.1
    rw [Shaped] at shaped
    have closes : ∀ offset', step grammar offset' ')'
        (awaitElement (.struct offset (members.reverse ++ []) :: stack) done) =
          .ok (complete (.struct members) stack done) := by
      intro offset'
      simp [step, elementStep, shaped.1]
    rw [chars, List.cons_append, run_of_step (step_openStruct done offset fits), List.append_assoc,
      run_charsAll members offset [] stack done (offset + 1) _ fun _ member => fits.member member,
      List.singleton_append, run_of_step (closes _), List.length_cons, List.length_append,
      List.length_singleton]
    congr 1
    omega
  | .entry key value, stack, done, offset, rest, fits => by
    have closes : ∀ offset', step grammar offset' '}' (awaitClose offset key value stack done) =
        .ok (complete (.entry key value) stack done) := by
      intro offset'
      rw [step, if_pos rfl]
    rw [chars, List.cons_append, List.cons_append, run_of_step (step_openEntry done offset fits),
      run_of_step (step_key done _ offset key), List.append_assoc,
      run_chars value (.entry offset key :: stack) done _ _ fits.value, complete,
      List.singleton_append, run_of_step (closes _), List.length_cons, List.length_cons,
      List.length_append, List.length_singleton]
    congr 1
    omega

/-- The spellings of members that fit under an open struct are taken in as its members. -/
theorem run_charsAll {grammar : Grammar} : (types : List CompleteType) → (start : Nat) →
    (read : List CompleteType) → (stack : List Frame) → (done : List CompleteType) →
    (offset : Nat) → (rest : List Char) →
    (∀ type ∈ types, Fits grammar (.struct start read :: stack) type) →
    run grammar (awaitElement (.struct start read :: stack) done) offset (charsAll types ++ rest) =
      run grammar (awaitElement (.struct start (types.reverse ++ read) :: stack) done)
        (offset + (charsAll types).length) rest
  | [], _, _, _, _, _, _, _ => by simp [charsAll]
  | type :: types, start, read, stack, done, offset, rest, fits => by
    rw [charsAll, List.append_assoc,
      run_chars type (.struct start read :: stack) done offset _ (fits type List.mem_cons_self),
      complete, run_charsAll types start (type :: read) stack done _ rest
        fun type member => fits type (List.mem_cons_of_mem _ member)]
    simp [Nat.add_assoc]

end

/-- The spellings of admitted types are taken in at the top level. -/
theorem run_charsAll_top {grammar : Grammar} (types done : List CompleteType) (offset : Nat)
    (rest : List Char) (admitted : ∀ type ∈ types, grammar.Admits type) :
    run grammar (awaitElement [] done) offset (charsAll types ++ rest) =
      run grammar (awaitElement [] (types.reverse ++ done)) (offset + (charsAll types).length)
        rest := by
  induction types generalizing done offset with
  | nil => simp [charsAll]
  | cons type types ih =>
    rw [List.forall_mem_cons] at admitted
    have fits : Fits grammar [] type := by
      refine ⟨admitted.1.1, fun kind => ?_⟩
      rw [opened, List.map_nil, List.count_nil, Nat.zero_add]
      exact admitted.1.2 kind
    rw [charsAll, List.append_assoc, run_chars type [] done offset _ fits, complete,
      ih (type :: done) _ admitted.2]
    simp [Nat.add_assoc]

/-- A text is read as the types that it spells, if the grammar admits them. -/
theorem run_initial_iff {grammar : Grammar} {text : List Char} {types : List CompleteType} :
    run grammar initial 0 text = .ok types ↔
      charsAll types = text ∧ ∀ type ∈ types, grammar.Admits type := by
  constructor
  · intro h
    exact run_sound h ⟨by simp, trivial⟩
  · intro h
    obtain ⟨rfl, admitted⟩ := h
    have := run_charsAll_top types [] 0 [] admitted
    rw [List.append_nil, List.append_nil] at this
    rw [initial, this, run, finish, List.reverse_reverse]

end Scan

end MessageArgs
