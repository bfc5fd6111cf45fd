import MessageArgs.ArgList
import MessageArgs.Proofs.Encoding.Rules

/-!
# Argument lists and their histories

What calls on an argument list do to its slots, and what they give back of them. `perform_ok_iff`
says when a call succeeds and with what (`Fulfilled`). It is then a `Write` of neighbouring slots,
of none if the call only reads, and the list is otherwise as it was (`Write.Done`). A call that
fails leaves the list as it is. Neighbouring slots can be taken one after the other (`fill_cons`,
`getEach_cons`).

`slots_afterAll` carries this over whole runs: a slot holds what was written to it last, and if
nothing was, what it held at first.
-/

namespace MessageArgs.ArgList

/-! ## Calls -/

/-- A call on an argument list. -/
inductive Action
  | set (index : UInt64) (text : String) (value : Value)
  | setMany (offset : UInt64) (text : String) (values : List Value)
  | replace (index : UInt64) (argument : Argument)
  | clear (index : UInt64)
  | get (index : UInt64) (text : String)
  | getMany (offset : UInt64) (text : String)
  | slot (index : UInt64)
  | signature

/-- What a call that succeeds gives back. -/
inductive Reply
  | done
  | count (n : Nat)
  | content (old : Option Argument)
  | value (value : Value)
  | values (values : List Value)
  | argument (argument : Argument)
  | signature (signature : Signature)

/-- The outcome of a call: what it gives back, and the list as it is then. -/
def perform (list : ArgList) : Action → Except CodecError (Reply × ArgList)
  | .set index text value => (list.set index.toNat text value).map fun next => (.done, next)
  | .setMany offset text values =>
    (list.setMany offset.toNat text values).map fun made => (.count made.1, made.2)
  | .replace index argument =>
    (list.replace index.toNat argument).map fun made => (.content made.1, made.2)
  | .clear index => (list.clear index.toNat).map fun made => (.content made.1, made.2)
  | .get index text => (list.get index.toNat text).map fun value => (.value value, list)
  | .getMany offset text =>
    (list.getMany offset.toNat text).map fun values => (.values values, list)
  | .slot index => (list.slot index.toNat).map fun argument => (.argument argument, list)
  | .signature => list.signature.map fun signature => (.signature signature, list)

/-- What a call gives back. -/
def reply (list : ArgList) (action : Action) : Except CodecError Reply :=
  (list.perform action).map Prod.fst

/-- The list after a call. -/
def after (list : ArgList) (action : Action) : ArgList :=
  match list.perform action with
  | .ok (_, next) => next
  | .error _ => list

/-- The list after some calls, one after the other. -/
def afterAll (list : ArgList) (actions : List Action) : ArgList :=
  actions.foldl after list

/-! ## Neighbouring slots -/

@[simp]
theorem fill_nil (slots : List (Option Argument)) (index : Nat) : fill slots index [] = slots := by
  rw [fill, List.map_nil, List.append_nil, List.length_nil, Nat.add_zero, List.take_append_drop]

/-- Slots are filled one after the other. -/
theorem fill_cons {slots : List (Option Argument)} {index : Nat} {argument : Argument}
    {args : List Argument} (inside : index < slots.length) :
    fill slots index (argument :: args) =
      fill (slots.set index (some argument)) (index + 1) args := by
  have taken : (slots.set index (some argument)).take (index + 1) =
      slots.take index ++ [some argument] := by
    have front : (slots.take index).length = index := by
      rw [List.length_take]
      omega
    rw [List.take_set, List.take_succ_eq_append_getElem inside,
      List.set_append_right _ _ (by omega), front, Nat.sub_self]
    rfl
  rw [fill, fill, taken, List.drop_set_of_lt (by omega), List.map_cons, List.length_cons,
    List.append_assoc, List.append_assoc, List.append_assoc, Nat.add_right_comm index 1]
  rfl

theorem getEach_cons (list : ArgList) (index : Nat) (type : CompleteType)
    (types : List CompleteType) :
    list.getEach index (type :: types) =
      list.get index type.text >>= fun value =>
        list.getEach (index + 1) types >>= fun rest => .ok (value :: rest) := by
  rw [getEach, get]
  cases list.slot index <;> rfl

/-! ## Writes -/

/-- New contents of neighbouring slots. -/
structure Write where
  first : Nat
  contents : List (Option Argument)

namespace Write

/-- What is written to a slot, if anything. -/
def at? (write : Write) (i : Nat) : Option (Option Argument) :=
  if write.first ≤ i then write.contents[i - write.first]? else none

/-- All of it lies within a list, and it is what tells the next list from this one. -/
structure Done (write : Write) (list next : ArgList) : Prop where
  config : next.config = list.config
  length : next.length = list.length
  fits : write.first + write.contents.length ≤ list.length
  slots : ∀ i, next.slots[i]? = (write.at? i).or list.slots[i]?

theorem at?_eq_none_iff {write : Write} {i : Nat} :
    write.at? i = none ↔ i < write.first ∨ write.first + write.contents.length ≤ i := by
  rw [at?]
  split
  · rw [List.getElem?_eq_none_iff]
    omega
  · simp only [true_iff]
    omega

theorem at?_add (first : Nat) (contents : List (Option Argument)) (i : Nat) :
    (Write.mk first contents).at? (first + i) = contents[i]? := by
  rw [at?, if_pos (Nat.le_add_right first i), Nat.add_sub_cancel_left]

/-- Nothing is written. -/
theorem done_nothing (list : ArgList) : Done ⟨0, []⟩ list list where
  config := rfl
  length := rfl
  fits := Nat.zero_le _
  slots i := by rw [at?_eq_none_iff.2 (.inr (Nat.zero_le i)), Option.none_or]

/-- The next list is known. -/
theorem Done.unique {write : Write} {list next next' : ArgList} (done : write.Done list next)
    (done' : write.Done list next') : next = next' := by
  have slots : next.slots = next'.slots :=
    List.ext_getElem? fun i => (done.slots i).trans (done'.slots i).symm
  have config : next.config = next'.config := done.config.trans done'.config.symm
  cases next
  cases next'
  cases slots
  cases config
  rfl

/-- One slot is written. -/
theorem done_set {list : ArgList} {index : Nat} {content : Option Argument}
    (inside : index < list.length) :
    Done ⟨index, [content]⟩ list { list with slots := list.slots.set index content } where
  config := rfl
  length := List.length_set
  fits := inside
  slots i := by
    have inside' : index < list.slots.length := inside
    by_cases here : i = index
    · subst here
      have written := at?_add i [content] 0
      rw [Nat.add_zero] at written
      simp [written, inside']
    · have beside : (Write.mk index [content]).at? i = none := by
        rw [at?_eq_none_iff]
        show i < index ∨ index + 1 ≤ i
        omega
      rw [beside, Option.none_or, List.getElem?_set_ne (Ne.symm here)]

/-- Several slots are written. -/
theorem done_fill {list : ArgList} {offset : Nat} {args : List Argument}
    (fits : offset + args.length ≤ list.length) :
    Done ⟨offset, args.map some⟩ list { list with slots := fill list.slots offset args } := by
  have bound : offset + args.length ≤ list.slots.length := fits
  have front : (list.slots.take offset).length = offset := by
    rw [List.length_take]
    omega
  have same : (fill list.slots offset args).length = list.slots.length := by
    simp only [fill, List.length_append, front, List.length_map, List.length_drop]
    omega
  refine ⟨rfl, same, by rwa [List.length_map], fun i => ?_⟩
  show (fill list.slots offset args)[i]? = _
  rw [fill, List.append_assoc]
  rcases Nat.lt_or_ge i offset with before | at_or_behind
  · have beside : (Write.mk offset (args.map some)).at? i = none := at?_eq_none_iff.2 (.inl before)
    rw [beside, Option.none_or, List.getElem?_append_left (by omega), List.getElem?_take,
      if_pos before]
  · obtain ⟨k, rfl⟩ := Nat.exists_eq_add_of_le at_or_behind
    rw [at?_add, List.getElem?_append_right (by omega), front, Nat.add_sub_cancel_left]
    rcases Nat.lt_or_ge k args.length with within | behind
    · rw [List.getElem?_append_left (by simpa using within)]
      simp [within]
    · rw [List.getElem?_append_right (by simpa using behind), List.getElem?_drop,
        List.getElem?_eq_none (l := args.map some) (by simpa using behind), Option.none_or,
        List.length_map]
      congr 1
      omega

end Write

/-- What a call writes if it succeeds. -/
def Action.write (config : CodecConfig) : Action → Write
  | .set index text value => ⟨index.toNat, [(encode config text value).toOption]⟩
  | .setMany offset text values =>
    ⟨offset.toNat, ((encodeAll config text values).toOption.getD []).map some⟩
  | .replace index argument => ⟨index.toNat, [some argument]⟩
  | .clear index => ⟨index.toNat, [none]⟩
  | .get .. | .getMany .. | .slot _ | .signature => ⟨0, []⟩

/-- What a call writes. -/
def write? (list : ArgList) (action : Action) : Option Write :=
  (list.reply action).toOption.map fun _ => action.write list.config

/-- What some calls write, one after the other. -/
def writes (list : ArgList) : List Action → List Write
  | [] => []
  | action :: actions => (list.write? action).toList ++ (list.after action).writes actions

/-- What is written to a slot last, if anything. -/
def lastWritten (list : ArgList) (actions : List Action) (i : Nat) : Option (Option Argument) :=
  (list.writes actions).reverse.findSome? (·.at? i)

/-! ## One call -/

/-- Neighbouring slots hold some arguments. -/
def Holds (list : ArgList) (offset : Nat) (args : List Argument) : Prop :=
  offset + args.length ≤ list.length ∧
    ∀ i < args.length, list.slots[offset + i]? = some args[i]?

/-- What a call that succeeds has done, and what it gives back. -/
def Fulfilled (list next : ArgList) : Action → Reply → Prop
  | .set index text value, reply =>
    ∃ argument, encode list.config text value = .ok argument ∧ reply = .done ∧
      (Write.mk index.toNat [some argument]).Done list next
  | .setMany offset text values, reply =>
    ∃ elements args, Grammar.caller.split text = .ok elements ∧
      encodeAll list.config text values = .ok args ∧ args.length = elements.length ∧
      reply = .count elements.length ∧
      (Write.mk offset.toNat (args.map some)).Done list next
  | .replace index argument, reply =>
    ∃ old, list.slots[index.toNat]? = some old ∧ reply = .content old ∧
      (Write.mk index.toNat [some argument]).Done list next
  | .clear index, reply =>
    ∃ old, list.slots[index.toNat]? = some old ∧ reply = .content old ∧
      (Write.mk index.toNat [none]).Done list next
  | .get index text, reply =>
    ∃ argument value, list.slots[index.toNat]? = some (some argument) ∧
      decode list.config text argument = .ok value ∧ reply = .value value ∧ next = list
  | .getMany offset text, reply =>
    ∃ elements args values, Grammar.caller.split text = .ok elements ∧
      args.length = elements.length ∧ list.Holds offset.toNat args ∧
      List.Forall₂ (fun slot value => decode list.config slot.1 slot.2 = .ok value)
        (elements.zip args) values ∧
      reply = .values values ∧ next = list
  | .slot index, reply =>
    ∃ argument, list.slots[index.toNat]? = some (some argument) ∧ reply = .argument argument ∧
      next = list
  | .signature, reply =>
    ∃ (args : List Argument) (whole : Signature), list.slots = args.map some ∧
      Signature.concat (args.map Argument.signature) = .ok whole ∧ reply = .signature whole ∧
      next = list

variable {list next : ArgList} {action : Action} {answer : Reply}

@[simp]
theorem checkIndex_iff {index : Nat} :
    list.checkIndex index = .ok () ↔ index < list.length := by
  rw [checkIndex]
  split <;> simp_all

@[simp]
theorem checkRange_iff {offset needed : Nat} :
    list.checkRange offset needed = .ok () ↔ offset + needed ≤ list.length := by
  rw [checkRange]
  split
  · simp only [reduceCtorEq, false_iff]
    omega
  · split
    · simp only [reduceCtorEq, false_iff]
      omega
    · simp only [true_iff]
      omega

/-- One argument is made for each element of the signature. -/
theorem length_of_encodeAll {config : CodecConfig} {text : String} {values : List Value}
    {args : List Argument} (h : encodeAll config text values = .ok args) :
    ∃ types, Grammar.caller.read text = .ok types ∧ args.length = types.length := by
  obtain ⟨types, read, arity, encoded⟩ := encodeAll_iff.1 h
  refine ⟨types, read, ?_⟩
  rw [← encoded.length_eq, List.length_zip]
  omega

theorem exchange_ok_iff {index : Nat} {content old : Option Argument} :
    list.exchange index content = .ok (old, next) ↔
      list.slots[index]? = some old ∧ (Write.mk index [content]).Done list next := by
  rw [exchange]
  split
  · rename_i missing
    simp [missing]
  · rename_i held found
    have inside : index < list.length := (List.getElem?_eq_some_iff.1 found).1
    have written : (Write.mk index [content]).Done list _ := Write.done_set inside
    rw [found]
    constructor
    · intro h
      cases h
      exact ⟨rfl, written⟩
    · intro h
      obtain ⟨⟨⟩, done⟩ := h
      rw [done.unique written]

theorem set_ok_iff {index : Nat} {text : String} {value : Value} :
    list.set index text value = .ok next ↔
      ∃ argument, encode list.config text value = .ok argument ∧
        (Write.mk index [some argument]).Done list next := by
  constructor
  · intro h
    obtain ⟨inside, argument, encoded, rfl⟩ : index < list.length ∧
        ∃ argument, encode list.config text value = .ok argument ∧
          { list with slots := list.slots.set index (some argument) } = next := by
      simpa [set] using h
    exact ⟨argument, encoded, Write.done_set inside⟩
  · intro h
    obtain ⟨argument, encoded, done⟩ := h
    have inside : index < list.length := done.fits
    rw [done.unique (Write.done_set inside)]
    simp [set, inside, encoded]

theorem setMany_ok_iff {offset n : Nat} {text : String} {values : List Value} :
    list.setMany offset text values = .ok (n, next) ↔
      ∃ elements args, Grammar.caller.split text = .ok elements ∧
        encodeAll list.config text values = .ok args ∧ args.length = elements.length ∧
        n = elements.length ∧ (Write.mk offset (args.map some)).Done list next := by
  constructor
  · intro h
    obtain ⟨types, read, range, args, encoded, rfl, rfl⟩ : ∃ types,
        Grammar.caller.read text = .ok types ∧ offset + types.length ≤ list.length ∧
        ∃ args, encodeAll list.config text values = .ok args ∧ args.length = n ∧
          { list with slots := fill list.slots offset args } = next := by
      simpa [setMany] using h
    obtain ⟨types', read', arity⟩ := length_of_encodeAll encoded
    cases read.symm.trans read'
    rw [← arity] at range
    have split := Grammar.split_ok_iff.2 ⟨types, read, rfl⟩
    refine ⟨_, args, split, encoded, ?_, ?_, Write.done_fill range⟩ <;> rw [List.length_map, arity]
  · intro h
    obtain ⟨elements, args, split, encoded, arity, rfl, done⟩ := h
    obtain ⟨types, read, same⟩ := length_of_encodeAll encoded
    have range : offset + args.length ≤ list.length := by simpa using done.fits
    rw [done.unique (Write.done_fill range)]
    rw [same] at range
    simp [setMany, read, range, encoded, arity]

theorem slot_ok_iff {index : Nat} {argument : Argument} :
    list.slot index = .ok argument ↔ list.slots[index]? = some (some argument) := by
  rw [slot]
  split <;> simp_all

theorem get_ok_iff {index : Nat} {text : String} {value : Value} :
    list.get index text = .ok value ↔ ∃ argument, list.slots[index]? = some (some argument) ∧
      decode list.config text argument = .ok value := by
  simp [get, slot_ok_iff]

/-- Slots are decoded one after the other, each under its own type. -/
theorem getEach_ok_iff {offset : Nat} {types : List CompleteType} {values : List Value} :
    list.getEach offset types = .ok values ↔
      ∃ args, args.length = types.length ∧
        (∀ i < args.length, list.slots[offset + i]? = some args[i]?) ∧
        List.Forall₂ (fun slot value => decode list.config slot.1 slot.2 = .ok value)
          ((types.map CompleteType.text).zip args) values := by
  induction types generalizing offset values with
  | nil =>
    constructor
    · intro h
      cases h
      exact ⟨[], rfl, nofun, .nil⟩
    · intro h
      obtain ⟨args, arity, -, decodes⟩ := h
      cases decodes
      rfl
  | cons type types ih =>
    simp only [getEach_cons, bind_ok_iff, get_ok_iff, ih]
    constructor
    · intro h
      obtain ⟨value, ⟨argument, held, decoded⟩, rest, ⟨args, arity, others, decodes⟩, ⟨⟩⟩ := h
      refine ⟨argument :: args, congrArg Nat.succ arity, ?_, .cons decoded decodes⟩
      intro i inside
      cases i with
      | zero => exact held
      | succ i =>
        have beside := others i (Nat.lt_of_succ_lt_succ inside)
        rwa [Nat.add_right_comm] at beside
    · intro h
      obtain ⟨args, arity, held, decodes⟩ := h
      cases args with
      | nil => cases arity
      | cons argument args =>
        cases decodes with
        | cons decoded decodes =>
          refine ⟨_, ⟨argument, held 0 (Nat.succ_pos _), decoded⟩, _,
            ⟨args, Nat.succ.inj arity, fun i inside => ?_, decodes⟩, rfl⟩
          rw [Nat.add_right_comm]
          exact held (i + 1) (Nat.succ_lt_succ inside)

theorem getMany_ok_iff {offset : Nat} {text : String} {values : List Value} :
    list.getMany offset text = .ok values ↔
      ∃ elements args, Grammar.caller.split text = .ok elements ∧
        args.length = elements.length ∧ list.Holds offset args ∧
        List.Forall₂ (fun slot value => decode list.config slot.1 slot.2 = .ok value)
          (elements.zip args) values := by
  have rule : list.getMany offset text = .ok values ↔
      ∃ types, Grammar.caller.read text = .ok types ∧
        offset + types.length ≤ list.length ∧ list.getEach offset types = .ok values := by
    simp [getMany]
  simp only [rule, getEach_ok_iff, Grammar.split_ok_iff]
  constructor
  · intro h
    obtain ⟨types, read, range, args, arity, held, decodes⟩ := h
    rw [← arity] at range
    exact ⟨_, args, ⟨types, read, rfl⟩, by rw [List.length_map, arity], ⟨range, held⟩, decodes⟩
  · intro h
    obtain ⟨_, args, ⟨types, read, rfl⟩, arity, ⟨range, held⟩, decodes⟩ := h
    rw [List.length_map] at arity
    exact ⟨types, read, arity ▸ range, args, arity, held, decodes⟩

/-- The arguments of a list can be collected if all slots are set. -/
theorem argumentsFrom_ok_iff {index : Nat} {slots : List (Option Argument)}
    {args : List Argument} : argumentsFrom index slots = .ok args ↔ slots = args.map some := by
  induction slots generalizing index args with
  | nil => cases args <;> simp [argumentsFrom]
  | cons content slots ih =>
    cases content with
    | none => cases args <;> simp [argumentsFrom]
    | some argument => cases args <;> simp [argumentsFrom, ih, and_comm]

theorem signature_ok_iff {whole : Signature} :
    list.signature = .ok whole ↔ ∃ args : List Argument, list.slots = args.map some ∧
      Signature.concat (args.map Argument.signature) = .ok whole := by
  simp [signature, arguments, argumentsFrom_ok_iff]

/-- A call succeeds exactly if it does what it is for. -/
theorem perform_ok_iff :
    list.perform action = .ok (answer, next) ↔ Fulfilled list next action answer := by
  cases action with
  | set | setMany | replace | clear =>
    simp only [perform, Fulfilled, replace, clear, map_ok_iff, Prod.exists, Prod.mk.injEq,
      set_ok_iff, setMany_ok_iff, exchange_ok_iff]
    grind
  | get | getMany | slot | signature =>
    simp only [perform, Fulfilled, map_ok_iff, Prod.mk.injEq, get_ok_iff, getMany_ok_iff,
      slot_ok_iff, signature_ok_iff]
    grind

/-- What a call has done is a write. -/
theorem Fulfilled.done (h : Fulfilled list next action answer) :
    (action.write list.config).Done list next := by
  cases action with
  | set index text value =>
    obtain ⟨argument, encoded, -, written⟩ := h
    rwa [Action.write, encoded]
  | setMany offset text values =>
    obtain ⟨elements, args, -, encoded, -, -, written⟩ := h
    rwa [Action.write, encoded]
  | replace index argument =>
    obtain ⟨old, -, -, written⟩ := h
    exact written
  | clear index =>
    obtain ⟨old, -, -, written⟩ := h
    exact written
  | get index text =>
    obtain ⟨argument, value, -, -, -, rfl⟩ := h
    exact Write.done_nothing next
  | getMany offset text =>
    obtain ⟨elements, args, values, -, -, -, -, -, rfl⟩ := h
    exact Write.done_nothing next
  | slot index =>
    obtain ⟨argument, -, -, rfl⟩ := h
    exact Write.done_nothing next
  | signature =>
    obtain ⟨args, whole, -, -, -, rfl⟩ := h
    exact Write.done_nothing next

/-- A call that fails leaves the list as it is. -/
theorem after_of_error {error : CodecError} (h : list.reply action = .error error) :
    list.after action = list := by
  rw [reply] at h
  rw [after]
  cases performed : list.perform action with
  | error error => rfl
  | ok made =>
    rw [performed] at h
    cases h

/-- What a call gives back tells what it has done, and the other way round. -/
theorem reply_ok_iff :
    list.reply action = .ok answer ↔ Fulfilled list (list.after action) action answer := by
  rw [reply]
  constructor
  · intro h
    obtain ⟨⟨_, next⟩, performed, rfl⟩ := map_ok_iff.1 h
    rw [after, performed]
    exact perform_ok_iff.1 performed
  · intro h
    rw [perform_ok_iff.2 h]
    rfl

/-- After a call, a slot holds what the call wrote there, or else what it held before. -/
theorem step_after (list : ArgList) (action : Action) :
    (list.after action).config = list.config ∧ (list.after action).length = list.length ∧
      ∀ i, (list.after action).slots[i]? =
        ((list.write? action).bind (·.at? i)).or list.slots[i]? := by
  rw [write?]
  cases replied : list.reply action with
  | error error =>
    rw [after_of_error replied]
    exact ⟨rfl, rfl, fun i => rfl⟩
  | ok answer =>
    have done := (reply_ok_iff.1 replied).done
    exact ⟨done.config, done.length, done.slots⟩

/-! ## Whole runs -/

theorem lastWritten_cons (list : ArgList) (action : Action) (actions : List Action) (i : Nat) :
    list.lastWritten (action :: actions) i =
      ((list.after action).lastWritten actions i).or ((list.write? action).bind (·.at? i)) := by
  rw [lastWritten, writes, List.reverse_append, List.findSome?_append, lastWritten]
  cases list.write? action with
  | none => rfl
  | some write => simp

theorem config_afterAll (list : ArgList) (actions : List Action) :
    (list.afterAll actions).config = list.config := by
  induction actions generalizing list with
  | nil => rfl
  | cons action actions ih => exact (ih _).trans (list.step_after action).1

theorem length_afterAll (list : ArgList) (actions : List Action) :
    (list.afterAll actions).length = list.length := by
  induction actions generalizing list with
  | nil => rfl
  | cons action actions ih => exact (ih _).trans (list.step_after action).2.1

/-- A slot holds what was written to it last, or else what it held at first. -/
theorem slots_afterAll (list : ArgList) (actions : List Action) (i : Nat) :
    (list.afterAll actions).slots[i]? = (list.lastWritten actions i).or list.slots[i]? := by
  induction actions generalizing list with
  | nil => rfl
  | cons action actions ih =>
    obtain ⟨-, -, slots⟩ := list.step_after action
    rw [lastWritten_cons, Option.or_assoc, ← slots]
    exact ih (list.after action)

end MessageArgs.ArgList
