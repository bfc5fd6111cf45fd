import MessageArgs.Proofs.ArgList.History

/-!
# Argument lists in place

The calls on an argument list as they run on a machine: indices are words of 64 bits, sums and
differences of words must be words again, slots are filled one after the other, and an error keeps
what was done before it. A call that computes no word, or fills a slot that is not there, stops.

`mirrors_inPlace` proves that no call stops on a list whose length is a word, and that it comes to
the same as on lists that are passed along: all or nothing is written. `slots_hold_last_write` puts
this together with what the calls do over whole runs.
-/

namespace MessageArgs

open ArgList (Action Reply)

/-- A computation on a list in place, which may fail or stop. -/
abbrev InPlace := ExceptT CodecError (StateT ArgList Option)

namespace InPlace

variable {α β : Type}

/-! ## Calls -/

/-- Stops. -/
def stop : InPlace α :=
  ExceptT.mk fun _ => none

/-- An outcome that does not depend on the list. -/
def outcome (made : Except CodecError α) : InPlace α :=
  ExceptT.mk (pure made)

/-- A number as a word. -/
def word (n : Nat) : InPlace UInt64 :=
  if n < UInt64.size then pure (.ofNat n) else stop

/-- The sum of two words. -/
def plus (a b : UInt64) : InPlace UInt64 :=
  word (a.toNat + b.toNat)

/-- The difference of two words. -/
def minus (a b : UInt64) : InPlace UInt64 :=
  if b ≤ a then pure (a - b) else stop

/-- The argument in a slot. -/
def slot (index : UInt64) : InPlace Argument := do
  outcome ((← get).slot index.toNat)

/-- Puts something into a slot and gives back what was there. -/
def exchange (index : UInt64) (content : Option Argument) : InPlace (Option Argument) := do
  let list ← get
  match list.slots[index.toNat]? with
  | none => throw (.indexOutOfRange index.toNat list.length)
  | some old =>
    set { list with slots := list.slots.set index.toNat content }
    return old

/-- Encodes a value into a slot. -/
def write (index : UInt64) (text : String) (value : Value) : InPlace Unit := do
  let list ← get
  outcome (list.checkIndex index.toNat)
  let argument ← outcome (encode list.config text value)
  discard (exchange index (some argument))

/-- Decodes a slot. -/
def read (index : UInt64) (text : String) : InPlace Value := do
  let argument ← slot index
  outcome (decode (← get).config text argument)

/-- Refuses a run of slots that does not lie within the list. -/
def checkRange (offset needed : UInt64) : InPlace Unit := do
  let length ← word (← get).length
  if length < offset then throw (.indexOutOfRange offset.toNat length.toNat)
  else
    let available ← minus length offset
    if available < needed then throw (.truncated needed.toNat available.toNat) else pure ()

/-- Puts arguments into slots, one after the other. -/
def fill : UInt64 → List Argument → InPlace Unit
  | _, [] => pure ()
  | index, argument :: args => do
    let list ← get
    if index.toNat < list.length then
      set { list with slots := list.slots.set index.toNat (some argument) }
      let next ← plus index 1
      fill next args
    else stop

/-- Encodes one value for each complete type of a signature into the slots from an index on. -/
def writeMany (offset : UInt64) (text : String) (values : List Value) : InPlace UInt64 := do
  let types ← outcome ((Grammar.caller.read text).mapError .signature)
  let needed ← word types.length
  checkRange offset needed
  let args ← outcome (encodeAll (← get).config text values)
  fill offset args
  word args.length

/-- Decodes slots, one for each complete type; `done` of them have been decoded. -/
def readEach (offset done : UInt64) : List CompleteType → InPlace (List Value)
  | [] => pure []
  | type :: types => do
    let index ← plus offset done
    let value ← read index type.text
    let next ← plus done 1
    let rest ← readEach offset next types
    return value :: rest

/-- Decodes one slot for each complete type of a signature, from an index on. -/
def readMany (offset : UInt64) (text : String) : InPlace (List Value) := do
  let types ← outcome ((Grammar.caller.read text).mapError .signature)
  let needed ← word types.length
  checkRange offset needed
  readEach offset 0 types

/-- The arguments in some slots, the first of which has a given index. -/
def argumentsFrom : UInt64 → List (Option Argument) → InPlace (List Argument)
  | _, [] => pure []
  | index, none :: _ => throw (.emptySlot index.toNat)
  | index, some argument :: slots => do
    let next ← plus index 1
    let rest ← argumentsFrom next slots
    return argument :: rest

/-- The signatures of the slots, one after the other. -/
def signature : InPlace Signature := do
  let args ← argumentsFrom 0 (← get).slots
  outcome ((Signature.concat (args.map Argument.signature)).mapError .signature)

/-- A call in place. -/
def call : Action → InPlace Reply
  | .set index text value => (fun _ => .done) <$> write index text value
  | .setMany offset text values => (fun n => .count n.toNat) <$> writeMany offset text values
  | .replace index argument => .content <$> exchange index (some argument)
  | .clear index => .content <$> exchange index none
  | .get index text => .value <$> read index text
  | .getMany offset text => .values <$> readMany offset text
  | .slot index => .argument <$> slot index
  | .signature => .signature <$> signature

variable {list : ArgList}

/-! ## Outcomes -/

/-- A computation in place does not stop, and comes to a given outcome with a given list. -/
def Mirrors (run : InPlace α) (list : ArgList) (made : Except CodecError (α × ArgList)) : Prop :=
  run.run.run list = some (match made with
    | .ok (result, next) => (.ok result, next)
    | .error error => (.error error, list))

/-- A computation in place does not stop, and only reads. -/
def Yields (run : InPlace α) (list : ArgList) (made : Except CodecError α) : Prop :=
  Mirrors run list (made.map fun result => (result, list))

/-- What is done after a computation that only reads. -/
theorem Yields.bind {run : InPlace α} {next : α → InPlace β} {made : Except CodecError α}
    {made' : α → Except CodecError (β × ArgList)} (first : Yields run list made)
    (rest : ∀ result, made = .ok result → Mirrors (next result) list (made' result)) :
    Mirrors (run >>= next) list (made >>= made') := by
  cases made with
  | error error =>
    show (run.run >>= _).run list = _
    rw [StateT.run_bind, first]
    rfl
  | ok result =>
    show (run.run >>= _).run list = _
    rw [StateT.run_bind, first]
    exact rest result rfl

theorem Yields.bind_reads {run : InPlace α} {next : α → InPlace β} {made : Except CodecError α}
    {made' : α → Except CodecError β} (first : Yields run list made)
    (rest : ∀ result, made = .ok result → Yields (next result) list (made' result)) :
    Yields (run >>= next) list (made >>= made') := by
  have all := first.bind rest
  cases made <;> exact all

/-- What is done after a computation that is known to succeed. -/
theorem Yields.next {run : InPlace α} {next : α → InPlace β} {result : α}
    {made : Except CodecError (β × ArgList)} (first : Yields run list (.ok result))
    (rest : Mirrors (next result) list made) : Mirrors (run >>= next) list made := by
  show (run.run >>= _).run list = _
  rw [StateT.run_bind, first]
  exact rest

/-- What is done after a computation that writes. -/
theorem Mirrors.bind {run : InPlace α} {next : α → InPlace β} {between last : ArgList} {result : α}
    {result' : β} (first : Mirrors run list (.ok (result, between)))
    (rest : Mirrors (next result) between (.ok (result', last))) :
    Mirrors (run >>= next) list (.ok (result', last)) := by
  show (run.run >>= _).run list = _
  rw [StateT.run_bind, first]
  exact rest

theorem Mirrors.map {run : InPlace α} {made : Except CodecError (α × ArgList)} (f : α → β)
    (all : Mirrors run list made) :
    Mirrors (f <$> run) list (made.map fun made => (f made.1, made.2)) := by
  unfold Mirrors at all ⊢
  rw [ExceptT.run_map, StateT.run_map, all]
  cases made <;> rfl

theorem Yields.map {run : InPlace α} {made : Except CodecError α} (f : α → β)
    (all : Yields run list made) :
    Mirrors (f <$> run) list (made.map fun result => (f result, list)) := by
  have mapped := Mirrors.map f all
  cases made <;> exact mapped

theorem mirrors_get {next : ArgList → InPlace β} {made : Except CodecError (β × ArgList)}
    (rest : Mirrors (next list) list made) : Mirrors (get >>= next) list made :=
  rest

theorem yields_pure (result : α) : Yields (pure result) list (.ok result) := rfl

theorem yields_throw (error : CodecError) :
    Yields (throw error : InPlace α) list (.error error) := rfl

theorem yields_outcome (made : Except CodecError α) : Yields (outcome made) list made := by
  cases made <;> rfl

theorem yields_word {n : Nat} (small : n < UInt64.size) :
    Yields (word n) list (.ok (.ofNat n)) := by
  rw [word, if_pos small]
  rfl

theorem yields_plus {a b : UInt64} (small : a.toNat + b.toNat < UInt64.size) :
    Yields (plus a b) list (.ok (.ofNat (a.toNat + b.toNat))) :=
  yields_word small

/-- The word after another one. -/
theorem exists_next {index : UInt64} (room : index.toNat + 1 < UInt64.size) :
    ∃ next : UInt64, next.toNat = index.toNat + 1 ∧ ∀ list, Yields (plus index 1) list (.ok next) :=
  ⟨.ofNat (index.toNat + 1), UInt64.toNat_ofNat_of_lt room, fun _ => yields_plus room⟩

theorem yields_minus {a b : UInt64} (le : b ≤ a) : Yields (minus a b) list (.ok (a - b)) := by
  rw [minus, if_pos le]
  rfl

/-! ## Slots -/

theorem yields_slot (list : ArgList) (index : UInt64) :
    Yields (slot index) list (list.slot index.toNat) :=
  mirrors_get (yields_outcome _)

theorem yields_read (list : ArgList) (index : UInt64) (text : String) :
    Yields (read index text) list (list.get index.toNat text) :=
  (yields_slot list index).bind_reads fun _ _ => mirrors_get (yields_outcome _)

theorem mirrors_exchange (list : ArgList) (index : UInt64) (content : Option Argument) :
    Mirrors (exchange index content) list (list.exchange index.toNat content) := by
  refine mirrors_get ?_
  rw [ArgList.exchange]
  cases list.slots[index.toNat]? <;> rfl

theorem mirrors_write (list : ArgList) (index : UInt64) (text : String) (value : Value) :
    Mirrors (write index text value) list
      ((list.set index.toNat text value).map fun next => ((), next)) := by
  have same : ((list.set index.toNat text value).map fun next => ((), next)) =
      list.checkIndex index.toNat >>= fun _ => encode list.config text value >>= fun argument =>
        .ok ((), { list with slots := list.slots.set index.toNat (some argument) }) := by
    rw [ArgList.set]
    cases list.checkIndex index.toNat with
    | error error => rfl
    | ok done => cases encode list.config text value <;> rfl
  rw [same]
  refine mirrors_get ((yields_outcome _).bind fun _ checked => (yields_outcome _).bind ?_)
  intro argument _
  have inside : index.toNat < list.slots.length := ArgList.checkIndex_iff.1 checked
  have exchanged := mirrors_exchange list index (some argument)
  rw [ArgList.exchange, List.getElem?_eq_getElem inside] at exchanged
  exact exchanged.map fun _ => ()

/-! ## Ranges -/

variable {offset : UInt64} {n : Nat}

theorem toNat_ofNat {n : Nat} (small : n < UInt64.size) : (UInt64.ofNat n).toNat = n :=
  UInt64.toNat_ofNat_of_lt small

theorem yields_checkRange (fits : list.length < UInt64.size) (small : n < UInt64.size) :
    Yields (checkRange offset (.ofNat n)) list (list.checkRange offset.toNat n) := by
  have bounded : offset.toNat < UInt64.size := offset.toNat_lt
  refine mirrors_get ((yields_word fits).next ?_)
  rw [ArgList.checkRange]
  simp only [UInt64.lt_iff_toNat_lt, toNat_ofNat fits, toNat_ofNat small]
  split
  · exact yields_throw _
  · rename_i within
    have le : offset ≤ .ofNat list.length := by
      rw [UInt64.le_iff_toNat_le, toNat_ofNat fits]
      omega
    refine (yields_minus le).next ?_
    rw [UInt64.toNat_sub_of_le _ _ le, toNat_ofNat fits]
    split
    · exact yields_throw _
    · exact yields_pure ()

theorem mirrors_fill {index : UInt64} {args : List Argument}
    (range : index.toNat + args.length ≤ list.length) (fits : list.length < UInt64.size) :
    Mirrors (fill index args) list
      (.ok ((), { list with slots := ArgList.fill list.slots index.toNat args })) := by
  induction args generalizing index list with
  | nil =>
    rw [ArgList.fill_nil]
    rfl
  | cons argument args ih =>
    rw [List.length_cons] at range
    have inside : index.toNat < list.length := by omega
    obtain ⟨next, moved, succeeds⟩ := exists_next (show index.toNat + 1 < _ by omega)
    refine mirrors_get ?_
    rw [if_pos inside, ArgList.fill_cons inside, ← moved]
    let stored : ArgList := { list with slots := list.slots.set index.toNat (some argument) }
    have same : stored.length = list.length := List.length_set
    have store : Mirrors (set stored) list (.ok (.unit, stored)) := rfl
    refine store.bind ((succeeds stored).next (ih ?_ (by rwa [same])))
    rw [moved, same]
    omega

/-- The number of elements of a signature is a word. -/
theorem length_read {text : String} {types : List CompleteType}
    (h : Grammar.caller.read text = .ok types) : types.length < UInt64.size := by
  obtain ⟨short, spelled, -⟩ := Grammar.read_iff.1 h
  have bytes := CompleteType.utf8ByteSize_of_spelled spelled
  have letters := Grammar.length_le_length_charsAll types
  have limit : maxLength < UInt64.size := by decide
  omega

theorem mirrors_writeMany (offset : UInt64) (text : String) (values : List Value)
    (fits : list.length < UInt64.size) :
    Mirrors (UInt64.toNat <$> writeMany offset text values) list
      (list.setMany offset.toNat text values) := by
  have same : list.setMany offset.toNat text values =
      (((Grammar.caller.read text).mapError CodecError.signature >>= fun types =>
        list.checkRange offset.toNat types.length >>= fun _ =>
          encodeAll list.config text values >>= fun args =>
            .ok (UInt64.ofNat args.length,
              { list with slots := ArgList.fill list.slots offset.toNat args })).map
        fun made => (made.1.toNat, made.2)) := by
    rw [ArgList.setMany]
    cases read : (Grammar.caller.read text).mapError CodecError.signature with
    | error error => rfl
    | ok types =>
      show (list.checkRange offset.toNat types.length >>= fun _ => _) =
        Except.map _ (list.checkRange offset.toNat types.length >>= fun _ => _)
      cases list.checkRange offset.toNat types.length with
      | error error => rfl
      | ok checked =>
        show (encodeAll list.config text values >>= fun _ => _) =
          Except.map _ (encodeAll list.config text values >>= fun _ => _)
        cases encoded : encodeAll list.config text values with
        | error error => rfl
        | ok args =>
          obtain ⟨types', read', arity⟩ := ArgList.length_of_encodeAll encoded
          have small := length_read read'
          rw [← arity] at small
          show Except.ok (args.length, _) = Except.ok ((UInt64.ofNat args.length).toNat, _)
          rw [toNat_ofNat small]
  rw [same]
  refine Mirrors.map UInt64.toNat ((yields_outcome _).bind fun types read => ?_)
  have small := length_read (mapError_ok_iff.1 read)
  refine (yields_word small).next ((yields_checkRange fits small).bind fun _ checked => ?_)
  refine mirrors_get ((yields_outcome _).bind fun args encoded => ?_)
  obtain ⟨types', read', arity⟩ := ArgList.length_of_encodeAll encoded
  cases read'.symm.trans (mapError_ok_iff.1 read)
  have range := ArgList.checkRange_iff.1 checked
  rw [← arity] at range small
  exact (mirrors_fill range fits).bind (yields_word small)

theorem yields_readEach {done : UInt64} {types : List CompleteType}
    (range : offset.toNat + (done.toNat + types.length) ≤ list.length)
    (fits : list.length < UInt64.size) :
    Yields (readEach offset done types) list
      (list.getEach (offset.toNat + done.toNat) types) := by
  induction types generalizing done with
  | nil => exact yields_pure []
  | cons type types ih =>
    rw [List.length_cons] at range
    have here : offset.toNat + done.toNat < UInt64.size := by omega
    obtain ⟨next, moved, succeeds⟩ := exists_next (show done.toNat + 1 < _ by omega)
    have first := yields_read list (.ofNat (offset.toNat + done.toNat)) type.text
    rw [toNat_ofNat here] at first
    rw [ArgList.getEach_cons, Nat.add_assoc, ← moved]
    refine (yields_plus here).next (first.bind_reads fun value _ => (succeeds list).next ?_)
    exact (ih (by omega)).bind_reads fun rest _ => yields_pure (value :: rest)

theorem yields_readMany (offset : UInt64) (text : String) (fits : list.length < UInt64.size) :
    Yields (readMany offset text) list (list.getMany offset.toNat text) := by
  refine (yields_outcome _).bind_reads fun types read => ?_
  have small := length_read (mapError_ok_iff.1 read)
  refine (yields_word small).next ((yields_checkRange fits small).bind_reads fun _ checked => ?_)
  have range := ArgList.checkRange_iff.1 checked
  exact yields_readEach (by simpa using range) fits

theorem yields_argumentsFrom {index : UInt64} {slots : List (Option Argument)}
    (range : index.toNat + slots.length < UInt64.size) :
    Yields (argumentsFrom index slots) list (ArgList.argumentsFrom index.toNat slots) := by
  induction slots generalizing index with
  | nil => exact yields_pure []
  | cons content slots ih =>
    cases content with
    | none => exact yields_throw _
    | some argument =>
      rw [List.length_cons] at range
      obtain ⟨next, moved, succeeds⟩ := exists_next (show index.toNat + 1 < _ by omega)
      rw [ArgList.argumentsFrom, ← moved]
      refine (succeeds list).next ((ih ?_).bind_reads fun rest _ => yields_pure (argument :: rest))
      omega

theorem yields_signature (fits : list.length < UInt64.size) :
    Yields signature list list.signature := by
  refine mirrors_get ((yields_argumentsFrom ?_).bind_reads fun args _ => yields_outcome _)
  simpa using (show list.slots.length < UInt64.size from fits)

/-- No call stops, and every call comes to the same in place. -/
theorem mirrors_call (action : Action) (fits : list.length < UInt64.size) :
    Mirrors (call action) list (list.perform action) := by
  cases action with
  | set index text value =>
    have all := (mirrors_write list index text value).map fun _ => Reply.done
    rw [ArgList.perform]
    cases made : list.set index.toNat text value <;> rw [made] at all <;> exact all
  | setMany offset text values =>
    have all := (mirrors_writeMany offset text values fits).map Reply.count
    rw [ArgList.perform]
    rwa [← comp_map] at all
  | replace index argument => exact (mirrors_exchange list index (some argument)).map Reply.content
  | clear index => exact (mirrors_exchange list index none).map Reply.content
  | get index text => exact (yields_read list index text).map Reply.value
  | getMany offset text => exact (yields_readMany offset text fits).map Reply.values
  | slot index => exact (yields_slot list index).map Reply.argument
  | signature => exact (yields_signature fits).map Reply.signature

end InPlace

namespace ArgList

/-! ## Main result -/

/-- An argument list after any calls. It is as long as before, and a slot holds what the last call
that succeeded in writing to it has left there: an argument, or nothing if that was a `clear`. A
slot that no call wrote to holds what it held at first.

Whatever is called next, an error leaves the list as it is, and a call succeeds exactly if it has
done what it is for and changed no other slot; what a call that reads gives back is made of what the
slots hold. In place, no index computation leaves the words and no slot
outside of the list is touched, and the call comes to the same. -/
theorem slots_hold_last_write (list : ArgList) (actions : List Action) :
    let now := list.afterAll actions
    now.length = list.length ∧ now.config = list.config ∧
    (∀ i, now.slots[i]? = (list.lastWritten actions i).or list.slots[i]?) ∧
    (∀ i, list.slots[i]? = some none → now.slots[i]? = some (list.lastWritten actions i).join) ∧
    ∀ action,
      (now.after action).length = list.length ∧
      (∀ error, now.reply action = .error error → now.after action = now) ∧
      (∀ answer, now.reply action = .ok answer ↔
        Fulfilled now (now.after action) action answer) ∧
      (list.length < UInt64.size →
        (InPlace.call action).run.run now = some (now.reply action, now.after action)) := by
  intro now
  have length : now.length = list.length := length_afterAll list actions
  have slots : ∀ i, now.slots[i]? = (list.lastWritten actions i).or list.slots[i]? :=
    slots_afterAll list actions
  refine ⟨length, config_afterAll list actions, slots, fun i hollow => ?_, fun action => ?_⟩
  · rw [slots, hollow]
    cases list.lastWritten actions i <;> rfl
  · refine ⟨(now.step_after action).2.1.trans length, fun error => after_of_error,
      fun answer => reply_ok_iff, fun fits => ?_⟩
    have same : InPlace.Mirrors _ now _ := InPlace.mirrors_call action (length ▸ fits)
    unfold InPlace.Mirrors at same
    rw [same, reply, after]
    cases now.perform action <;> rfl

/-- A bulk write that does not fit changes nothing. -/
theorem slots_hold_last_write_pair :
    let now := (empty 2 .standard).afterAll [.set 1 "y" (.atom (.byte 7)),
      .set 0 "b" (.atom (.bool true)), .clear 0, .set 1 "b" (.atom (.byte 8))]
    now.slots[0]? = some none ∧ now.slots[1]? = some (some (.scalar (.byte 7))) ∧
      (InPlace.call (.setMany 1 "yy" [.atom (.byte 1), .atom (.byte 2)])).run.run now =
        some (.error (.truncated 2 1), now) := by
  intro now
  obtain ⟨-, -, -, held, calls⟩ := slots_hold_last_write (empty 2 .standard)
    [.set 1 "y" (.atom (.byte 7)), .set 0 "b" (.atom (.bool true)), .clear 0,
      .set 1 "b" (.atom (.byte 8))]
  have refused : now.reply (.setMany 1 "yy" [.atom (.byte 1), .atom (.byte 2)]) =
      .error (.truncated 2 1) := rfl
  obtain ⟨-, unchanged, -, same⟩ := calls (.setMany 1 "yy" [.atom (.byte 1), .atom (.byte 2)])
  refine ⟨held 0 rfl, held 1 rfl, ?_⟩
  rw [same (by decide), refused, unchanged _ refused]

end ArgList

end MessageArgs
