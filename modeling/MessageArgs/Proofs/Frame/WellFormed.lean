import MessageArgs.Frame.Reader
import MessageArgs.Proofs.Argument.WellFormed

/-!
# Frames hold well-formed arguments

Whatever the bytes of a frame are, the arguments that are read out of it are well formed. The
readers are put together from `record`, `pair`, `sole`, `items` and `labelled`, and for each of
these a lemma says where a result comes from. `sound` is then an induction on how many lists and
objects may still open.
-/

namespace MessageArgs

namespace Reading

open Json (Node)

variable {α β σ : Type}

/-! ## Where results come from -/

theorem takeFields_invariant {I : σ → Prop} {step : σ → String → Node → Reading σ}
    (keeps : ∀ {state key node next}, I state → step state key node = .ok next → I next)
    {fields : List (Option String × Node)} {state next : σ} (holds : I state)
    (h : takeFields step state fields = .ok next) : I next := by
  induction fields generalizing state with
  | nil =>
    rw [takeFields, Except.ok.injEq] at h
    exact h ▸ holds
  | cons field fields ih =>
    obtain ⟨_ | key, node⟩ := field
    · cases h
    · rw [takeFields] at h
      split at h
      · rename_i after stepped
        exact ih (keeps holds stepped) h
      · cases h

/-- What the fields of a record keep true holds when the record is finished. -/
theorem record_ok {I : σ → Prop} {names : List String} {step : σ → String → Node → Reading σ}
    {initial : σ} {finish : σ → Reading α} {node : Node} {result : α} (start : I initial)
    (keeps : ∀ {state key node next}, I state → step state key node = .ok next → I next)
    (h : record names step initial finish node = .ok result) :
    ∃ state, I state ∧ finish state = .ok result := by
  rw [record] at h
  split at h
  · cases h
  · split at h
    · cases h
    · rename_i state taken
      split at h
      · exact ⟨state, takeFields_invariant keeps start taken, h⟩
      · cases h

/-- A slot holds nothing but what a reader gave. -/
def FilledBy (read : Node → Reading α) (slot : Option α) : Prop :=
  ∀ value, slot = some value → ∃ node, read node = .ok value

theorem filledBy_none {read : Node → Reading α} : FilledBy read none := by
  rintro value ⟨⟩

theorem fillOnce_filledBy {read : Node → Reading α} {slot next : Option α} {node : Node}
    (h : fillOnce slot (read node) = .ok next) : FilledBy read next := by
  cases slot with
  | some value => cases h
  | none =>
    obtain ⟨value, found, rfl⟩ := map_ok_iff.1 h
    rintro _ ⟨⟩
    exact ⟨node, found⟩

theorem pair_ok {name name' : String} {first : Node → Reading α} {second : Node → Reading β}
    {finish : α → β → Reading σ} {node : Node} {result : σ}
    (h : pair name name' first second finish node = .ok result) :
    ∃ a b, (∃ node, first node = .ok a) ∧ (∃ node, second node = .ok b) ∧
      finish a b = .ok result := by
  obtain ⟨⟨slot, slot'⟩, ⟨filled, filled'⟩, finished⟩ :=
    record_ok (I := fun state => FilledBy first state.1 ∧ FilledBy second state.2)
      ⟨filledBy_none, filledBy_none⟩ (by
        rintro ⟨slot, slot'⟩ key node next ⟨filled, filled'⟩ stepped
        split at stepped
        · obtain ⟨slot, read, rfl⟩ := map_ok_iff.1 stepped
          exact ⟨fillOnce_filledBy read, filled'⟩
        · split at stepped
          · obtain ⟨slot', read, rfl⟩ := map_ok_iff.1 stepped
            exact ⟨filled, fillOnce_filledBy read⟩
          · cases stepped
            exact ⟨filled, filled'⟩) h
  cases slot with
  | none => cases finished
  | some a =>
    cases slot' with
    | none => cases finished
    | some b => exact ⟨a, b, filled a rfl, filled' b rfl, finished⟩

theorem sole_ok {name : String} {read : Node → Reading α} {finish : α → Reading σ} {node : Node}
    {result : σ} (h : sole name read finish node = .ok result) :
    ∃ a, (∃ node, read node = .ok a) ∧ finish a = .ok result := by
  obtain ⟨slot, filled, finished⟩ := record_ok (I := FilledBy read) filledBy_none (by
    intro slot key node next filled stepped
    split at stepped
    · exact fillOnce_filledBy stepped
    · cases stepped
      exact filled) h
  cases slot with
  | none => cases finished
  | some a => exact ⟨a, filled a rfl, finished⟩

theorem items_ok {read : Node → Reading α} {node : Node} {results : List α}
    (h : items read node = .ok results) : ∀ result ∈ results, ∃ node, read node = .ok result := by
  cases node with
  | list nodes closed =>
    rw [items] at h
    split at h
    · cases h
    · rename_i values found
      split at h
      · cases h
        exact forall_right (mapM_ok_iff.1 found) fun node _ result read => ⟨node, read⟩
      · cases h
  | _ => cases h

theorem takeLabel_done {label : Reading Tag} {read : Tag → Node → Reading Argument}
    {state : Labelling} {arg : Argument} (h : takeLabel label read state = .ok (.done arg)) :
    ∃ tag node, read tag node = .ok arg := by
  cases state with
  | nothing =>
    obtain ⟨tag, -, impossible⟩ := map_ok_iff.1 h
    cases impossible
  | payload waiting =>
    cases label with
    | error fault => cases h
    | ok tag =>
      obtain ⟨arg, done, same⟩ := map_ok_iff.1 h
      cases same
      exact ⟨tag, waiting, done⟩
  | _ => cases h

theorem takePayload_done {room : Nat} {read : Tag → Node → Reading Argument} {node : Node}
    {state : Labelling} {arg : Argument} (h : takePayload room read node state = .ok (.done arg)) :
    ∃ tag node, read tag node = .ok arg := by
  cases state with
  | nothing =>
    obtain ⟨json, -, impossible⟩ := map_ok_iff.1 h
    cases impossible
  | label tag =>
    obtain ⟨arg, done, same⟩ := map_ok_iff.1 h
    cases same
    exact ⟨tag, node, done⟩
  | _ => cases h

/-- An argument that has been read was read by its label. -/
theorem labelled_ok {source : Source} {room : Nat}
    {read : Source → Tag → Node → Reading Argument} {node : Node} {arg : Argument}
    (h : labelled source room read node = .ok arg) :
    ∃ source tag node, read source tag node = .ok arg := by
  obtain ⟨state, found, finished⟩ := record_ok (I := fun state => ∀ arg, state = .done arg →
      ∃ source tag node, read source tag node = .ok arg) (by rintro arg ⟨⟩) (by
    rintro state key content _ found stepped arg rfl
    rw [labelStep] at stepped
    split at stepped
    · exact ⟨.kept, takeLabel_done stepped⟩
    · split at stepped
      · exact ⟨source, takePayload_done stepped⟩
      · cases stepped
        exact found arg rfl) h
  cases state with
  | done given =>
    cases finished
    exact found arg rfl
  | _ => cases finished

/-! ## Arguments -/

/-- Readers give well-formed arguments only, with so many lists and objects still to open. -/
structure Sound (room : Nat) : Prop where
  argument : ∀ source node arg, argument source room node = .ok arg → arg.WellFormed
  arguments : ∀ source node args, arguments source room node = .ok args →
    ∀ arg ∈ args, arg.WellFormed
  array : ∀ source node arg, arrayPayload source room node = .ok arg → arg.WellFormed
  struct : ∀ source node arg, structPayload source room node = .ok arg → arg.WellFormed
  entry : ∀ source node arg, entryPayload source room node = .ok arg → arg.WellFormed

theorem sound (room : Nat) : Sound room := by
  induction room with
  | zero => exact ⟨nofun, nofun, nofun, nofun, nofun⟩
  | succ room ih =>
    constructor
    · intro source node arg h
      obtain ⟨source, tag, content, read⟩ := labelled_ok h
      cases tag with
      | basic type =>
        obtain ⟨value, -, rfl⟩ := map_ok_iff.1 read
        exact Argument.wellFormed_scalar value
      | array => exact ih.array source content arg read
      | struct => exact ih.struct source content arg read
      | dictEntry => exact ih.entry source content arg read
      | variant =>
        obtain ⟨inside, held, rfl⟩ := map_ok_iff.1 read
        exact Argument.wellFormed_variant_iff.2 (ih.argument source content inside held)
      | wildcard => cases read
    · intro source node args h arg member
      obtain ⟨item, read⟩ := items_ok h arg member
      exact ih.argument source item arg read
    · intro source node arg h
      obtain ⟨element, items, -, ⟨listed, read⟩, built⟩ := pair_ok h
      exact Argument.ofItems_wellFormed (mapError_ok_iff.1 built)
        (ih.arguments source listed items read)
    · intro source node arg h
      obtain ⟨members, ⟨listed, read⟩, built⟩ := sole_ok h
      exact Argument.ofMembers_wellFormed (mapError_ok_iff.1 built)
        (ih.arguments source listed members read)
    · intro source node arg h
      obtain ⟨key, value, -, ⟨content, read⟩, built⟩ := pair_ok h
      exact Argument.ofEntry_wellFormed (mapError_ok_iff.1 built)
        (ih.argument source content value read)

theorem envelope_wellFormed {room : Nat} {node : Node} {result : Envelope}
    (h : envelope room node = .ok result) : ∀ arg ∈ result.args, arg.WellFormed := by
  obtain ⟨state, filled, finished⟩ := record_ok
    (I := fun state : EnvelopeFields => FilledBy (arguments .text (room - 1)) state.args)
    filledBy_none (by
      intro state key content next filled stepped
      split at stepped
      · obtain ⟨slot, -, rfl⟩ := map_ok_iff.1 stepped
        exact filled
      · split at stepped
        · obtain ⟨slot, -, rfl⟩ := map_ok_iff.1 stepped
          exact filled
        · split at stepped
          · obtain ⟨slot, read, rfl⟩ := map_ok_iff.1 stepped
            exact fillOnce_filledBy read
          · cases stepped
            exact filled) h
  split at finished
  · cases finished
    show ∀ arg ∈ state.args.getD [], arg.WellFormed
    cases given : state.args with
    | none => simp
    | some args =>
      obtain ⟨content, read⟩ := filled args given
      exact (sound (room - 1)).arguments .text content args read
  · cases finished

end Reading

theorem readFrame_ok {α : Type} {read : Json.Node → Reading α} {frame : ByteArray} {value : α}
    (h : readFrame read frame = .ok value) : ∃ node, read node = .ok value := by
  unfold readFrame at h
  dsimp only at h
  split at h
  · cases h
  · rename_i result found
    split at h
    · cases h
      exact ⟨_, found⟩
    · cases h

/-- The argument in a frame is well formed, whatever the bytes are. -/
theorem ofFrame_wellFormed {frame : ByteArray} {arg : Argument}
    (h : Argument.ofFrame frame = .ok arg) : arg.WellFormed := by
  obtain ⟨node, read⟩ := readFrame_ok h
  exact (Reading.sound _).argument .text node arg read

theorem envelope_ofFrame_wellFormed {frame : ByteArray} {envelope : Envelope}
    (h : Envelope.ofFrame frame = .ok envelope) : ∀ arg ∈ envelope.args, arg.WellFormed := by
  obtain ⟨node, read⟩ := readFrame_ok h
  exact Reading.envelope_wellFormed read

end MessageArgs
