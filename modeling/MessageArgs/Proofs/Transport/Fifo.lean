import MessageArgs.Proofs.Transport

/-!
# First in, first out

A transport against its history. What was done with it says which frames were queued
(`Loopback.queued`): those that were put in, and those of the sends before the first close that the
codec did not refuse. `conserves_after` is the step: the frames that wait, with one that is queued,
are the frame that is delivered and those that wait afterwards. `conserves_afterAll` carries this
over whole runs, for any codec, and `fifo` reads off it what each receive and each send reports.
-/

namespace MessageArgs

/-- What the receive that takes a frame reports. -/
def FrameCodec.delivery (codec : FrameCodec) (frame : ByteArray) :
    Except TransportError (Option Envelope) :=
  ((codec.decode frame).mapError .frame).map some

namespace Loopback

/-! ## What a history says -/

/-- Whether an action closes the transport. -/
def Action.isClose : Action → Bool
  | close => true
  | _ => false

/-- The frame that an action queues; a send queues none once the transport is closed. -/
def Action.queued? (codec : FrameCodec) (closed : Bool) : Action → Option ByteArray
  | send envelope => if closed then none else (codec.encode envelope).toOption
  | inject frame => some frame
  | receive | close => none

/-- The frames that some actions queue, in order. -/
def queued (codec : FrameCodec) : Bool → List Action → List ByteArray
  | _, [] => []
  | closed, action :: actions =>
    (action.queued? codec closed).toList ++ queued codec (closed || action.isClose) actions

/-- What an action reports, if it is a receive that finds a frame. -/
def delivered? (transport : Loopback) : Action → Option (Except TransportError (Option Envelope))
  | .receive =>
    match transport.receive.1 with
    | .ok none => none
    | outcome => some outcome
  | _ => none

/-- What the receives among some actions report that find a frame, in order. -/
def deliveries (transport : Loopback) :
    List Action → List (Except TransportError (Option Envelope))
  | [] => []
  | action :: actions =>
    (transport.delivered? action).toList ++ (transport.after action).deliveries actions

/-! ## One action -/

variable {codec : FrameCodec}

theorem delivery_ne_none (frame : ByteArray) : codec.delivery frame ≠ .ok none := by
  simp [FrameCodec.delivery]

/-- A receive reports on the first frame and takes it. -/
theorem receive_eq (transport : Loopback) :
    transport.receive.1 =
      (transport.frames.head?.map transport.codec.delivery).getD (.ok none) := by
  rw [receive]
  cases transport.frames with
  | nil => rfl
  | cons frame frames =>
    show _ = transport.codec.delivery frame
    rw [FrameCodec.delivery]
    dsimp only
    cases transport.codec.decode frame <;> rfl

theorem delivered?_receive (transport : Loopback) :
    transport.delivered? .receive = transport.frames.head?.map transport.codec.delivery := by
  rw [delivered?, receive_eq]
  cases transport.frames with
  | nil => rfl
  | cons frame frames =>
    show (match transport.codec.delivery frame with
      | .ok none => none
      | outcome => some outcome) = some (transport.codec.delivery frame)
    split
    · rename_i nothing
      exact absurd nothing (delivery_ne_none frame)
    · rfl

/-- A closed transport refuses every envelope, an open one those that the codec refuses. -/
theorem send_eq (transport : Loopback) (envelope : Envelope) :
    transport.send envelope =
      (if transport.isClosed then .error (.closed envelope.member envelope.seq)
        else ((transport.codec.encode envelope).mapError .frame).map fun _ => (),
      { transport with frames := transport.frames ++
          (Action.queued? transport.codec transport.isClosed (.send envelope)).toList }) := by
  obtain ⟨codec, frames, isClosed⟩ := transport
  rw [send, Action.queued?]
  cases isClosed with
  | true => simp
  | false =>
    dsimp only
    cases codec.encode envelope with
    | error error => simp [Except.map, Except.mapError, Except.toOption]
    | ok frame => simp [Except.map, Except.mapError, Except.toOption, inject]

variable {transport : Loopback} {envelope : Envelope}

theorem send_closed_iff {member : String} {seq : UInt64} :
    (transport.send envelope).1 = .error (.closed member seq) ↔
      transport.isClosed = true ∧ member = envelope.member ∧ seq = envelope.seq := by
  rw [send_eq]
  cases transport.isClosed <;> simp [eq_comm (a := member), eq_comm (a := seq)]

theorem send_frame_iff {fault : CodecError} :
    (transport.send envelope).1 = .error (.frame fault) ↔
      transport.isClosed = false ∧ transport.codec.encode envelope = .error fault := by
  rw [send_eq]
  cases transport.isClosed <;> simp

/-- A send that fails leaves the transport as it is. -/
theorem send_of_error {error : TransportError} (h : (transport.send envelope).1 = .error error) :
    (transport.send envelope).2 = transport := by
  rw [send] at h ⊢
  split
  · rfl
  · rename_i opened
    rw [if_neg opened] at h
    split
    · rfl
    · rename_i frame encoded
      rw [encoded] at h
      cases h

theorem send_of_ok (h : (transport.send envelope).1 = .ok ()) :
    ∃ frame, transport.codec.encode envelope = .ok frame ∧
      (transport.send envelope).2.frames = transport.frames ++ [frame] := by
  rw [send] at h ⊢
  split
  · rename_i closed
    rw [if_pos closed] at h
    cases h
  · rename_i opened
    rw [if_neg opened] at h
    cases encoded : transport.codec.encode envelope with
    | error error =>
      rw [encoded] at h
      cases h
    | ok frame => exact ⟨frame, rfl, rfl⟩

theorem isClosed_after (transport : Loopback) (action : Action) :
    (transport.after action).isClosed = (transport.isClosed || action.isClose) := by
  cases action with
  | send envelope =>
    rw [after, send_eq]
    exact (Bool.or_false _).symm
  | inject frame => exact (Bool.or_false _).symm
  | receive =>
    refine Eq.trans ?_ (Bool.or_false _).symm
    rw [after, receive]
    split
    · rfl
    · split <;> rfl
  | close => exact (Bool.or_true _).symm

/-- The frames that wait and the one that is queued are the one that is delivered and those that
wait afterwards. -/
theorem conserves_after (transport : Loopback) (action : Action) :
    ∃ taken : List ByteArray,
      transport.frames ++ (action.queued? transport.codec transport.isClosed).toList =
        taken ++ (transport.after action).frames ∧
      (transport.delivered? action).toList = taken.map transport.codec.delivery := by
  cases action with
  | send envelope => exact ⟨[], by rw [after, send_eq]; rfl, rfl⟩
  | inject frame => exact ⟨[], rfl, rfl⟩
  | close => exact ⟨[], List.append_nil _, rfl⟩
  | receive =>
    refine ⟨transport.frames.head?.toList, ?_, ?_⟩
    · rw [after, frames_receive, Action.queued?]
      cases transport.frames <;> simp
    · rw [delivered?_receive]
      cases transport.frames <;> rfl

/-! ## Whole runs -/

theorem codec_afterAll (transport : Loopback) (actions : List Action) :
    (transport.afterAll actions).codec = transport.codec := by
  induction actions generalizing transport with
  | nil => rfl
  | cons action actions ih => exact (ih _).trans (transport.codec_after action)

theorem isClosed_afterAll (transport : Loopback) (actions : List Action) :
    (transport.afterAll actions).isClosed =
      (transport.isClosed || actions.any Action.isClose) := by
  induction actions generalizing transport with
  | nil => exact (Bool.or_false _).symm
  | cons action actions ih =>
    rw [List.any_cons, ← Bool.or_assoc, ← isClosed_after]
    exact ih (transport.after action)

theorem isClosed_iff {actions : List Action} :
    ((ofCodec codec).afterAll actions).isClosed = true ↔ Action.close ∈ actions := by
  rw [isClosed_afterAll]
  show actions.any Action.isClose = true ↔ _
  rw [List.any_eq_true]
  constructor
  · intro h
    obtain ⟨action, member, closes⟩ := h
    cases action <;> cases closes
    exact member
  · intro member
    exact ⟨.close, member, rfl⟩

theorem afterAll_append (transport : Loopback) (first rest : List Action) :
    transport.afterAll (first ++ rest) = (transport.afterAll first).afterAll rest :=
  List.foldl_append

/-- No frame is lost, queued twice or moved: those that are delivered and those that wait in the
end are those that waited at first and those that were queued since. -/
theorem conserves_afterAll (transport : Loopback) (actions : List Action) :
    ∃ taken : List ByteArray,
      transport.frames ++ queued transport.codec transport.isClosed actions =
        taken ++ (transport.afterAll actions).frames ∧
      transport.deliveries actions = taken.map transport.codec.delivery := by
  induction actions generalizing transport with
  | nil => exact ⟨[], List.append_nil _, rfl⟩
  | cons action actions ih =>
    obtain ⟨first, kept, reported⟩ := transport.conserves_after action
    obtain ⟨others, kept', reported'⟩ := ih (transport.after action)
    rw [codec_after] at kept' reported'
    rw [isClosed_after] at kept'
    refine ⟨first ++ others, ?_, ?_⟩
    · rw [queued, ← List.append_assoc, kept, List.append_assoc, kept', ← List.append_assoc]
      rfl
    · rw [deliveries, reported, reported', List.map_append]

/-- As many receives as there are frames leave none. -/
theorem frames_drained (transport : Loopback) :
    (transport.afterAll (List.replicate transport.pending .receive)).frames = [] := by
  have taken : ∀ count, (transport.afterAll (List.replicate count .receive)).frames =
      transport.frames.drop count := by
    intro count
    induction count with
    | zero => rfl
    | succ count ih =>
      rw [List.replicate_succ', afterAll_append]
      show ((transport.afterAll (List.replicate count .receive)).receive).2.frames = _
      rw [frames_receive, ih, List.tail_drop]
  rw [taken, pending, List.drop_length]

theorem queued_replicate_receive (codec : FrameCodec) (closed : Bool) (count : Nat) :
    queued codec closed (List.replicate count .receive) = [] := by
  induction count generalizing closed with
  | zero => rfl
  | succ count ih => exact ih _

theorem deliveries_append (transport : Loopback) (first rest : List Action) :
    transport.deliveries (first ++ rest) =
      transport.deliveries first ++ (transport.afterAll first).deliveries rest := by
  induction first generalizing transport with
  | nil => rfl
  | cons action first ih =>
    rw [List.cons_append, deliveries, deliveries, ih, List.append_assoc]
    rfl

/-- Once as many receives are done as there are frames, all of them have been delivered. -/
theorem deliveries_drained (transport : Loopback) :
    transport.deliveries (List.replicate transport.pending .receive) =
      transport.frames.map transport.codec.delivery := by
  obtain ⟨taken, kept, reported⟩ :=
    transport.conserves_afterAll (List.replicate transport.pending .receive)
  rw [queued_replicate_receive, frames_drained, List.append_nil, List.append_nil] at kept
  rw [reported, kept]

/-! ## Main result -/

/-- A new transport after any actions, with any codec. What was delivered so far are the first of
the frames that were queued, in order, as the codec reads them; the others wait, and the next
receive reports on the first of them, or nothing if there is none. A send is refused if there was a
close, and else if the codec refuses the envelope; then the transport stays as it was. Whatever was
done, as many receives as there are frames deliver the rest. -/
theorem fifo (codec : FrameCodec) (actions : List Action) :
    let transport := (ofCodec codec).afterAll actions
    let sent := queued codec false actions
    let taken := (ofCodec codec).deliveries actions
    taken = (sent.take taken.length).map codec.delivery ∧
    transport.frames = sent.drop taken.length ∧
    taken.length + transport.pending = sent.length ∧
    transport.receive.1 = (sent[taken.length]?.map codec.delivery).getD (.ok none) ∧
    (transport.receive.1 = .ok none ↔ sent.length = taken.length) ∧
    transport.receive.2.frames = sent.drop (taken.length + 1) ∧
    (ofCodec codec).deliveries (actions ++ List.replicate transport.pending .receive) =
      sent.map codec.delivery ∧
    ∀ envelope,
      (∀ member seq, (transport.send envelope).1 = .error (.closed member seq) ↔
        Action.close ∈ actions ∧ member = envelope.member ∧ seq = envelope.seq) ∧
      (∀ fault, (transport.send envelope).1 = .error (.frame fault) ↔
        Action.close ∉ actions ∧ codec.encode envelope = .error fault) ∧
      (∀ error, (transport.send envelope).1 = .error error →
        (transport.send envelope).2 = transport) ∧
      ((transport.send envelope).1 = .ok () → ∃ frame, codec.encode envelope = .ok frame ∧
        (transport.send envelope).2.frames = transport.frames ++ [frame]) := by
  intro transport sent taken
  have same : transport.codec = codec := codec_afterAll _ actions
  obtain ⟨first, kept, reported⟩ := (ofCodec codec).conserves_afterAll actions
  have all : sent = first ++ transport.frames := kept
  have told : taken = first.map codec.delivery := reported
  have count : taken.length = first.length := by rw [told, List.length_map]
  have waiting : transport.frames = sent.drop taken.length := by
    rw [all, count, List.drop_left]
  have next : transport.receive.1 = (sent[taken.length]?.map codec.delivery).getD (.ok none) := by
    rw [receive_eq, same, waiting, List.head?_drop]
  refine ⟨?_, waiting, ?_, next, ?_, ?_, ?_, fun envelope => ⟨fun member seq => ?_, fun fault => ?_,
    fun error => send_of_error, fun done => ?_⟩⟩
  · rw [all, count, List.take_left, told]
  · rw [pending, all, count, List.length_append]
  · rw [receive_eq, all, count, List.length_append]
    cases transport.frames with
    | nil => simp
    | cons frame frames => simp [delivery_ne_none]
  · rw [frames_receive, waiting, List.tail_drop]
  · rw [deliveries_append, deliveries_drained, same]
    show taken ++ transport.frames.map codec.delivery = sent.map codec.delivery
    rw [told, all, List.map_append]
  · rw [send_closed_iff, isClosed_iff]
  · rw [send_frame_iff, ← Bool.not_eq_true, isClosed_iff, same]
  · rw [← same]
    exact send_of_ok done

/-- A codec that writes the member names of envelopes and refuses empty ones both ways. -/
def wary : FrameCodec where
  encode envelope :=
    if envelope.member = "" then .error .encodeFailed else .ok envelope.member.toUTF8
  decode frame :=
    if frame.isEmpty then .error (.decodeFailed .malformed) else .ok ⟨0, "read", []⟩

/-- Behind a send that the codec refuses, a frame that it cannot read and a close, what was sent
and what was put in is still received in order. -/
theorem fifo_wary :
    let transport := (ofCodec wary).afterAll [.send ⟨1, "", []⟩, .send ⟨2, "A", []⟩,
      .inject .empty, .close, .send ⟨3, "B", []⟩, .inject ⟨#[1]⟩, .receive]
    transport.frames = [.empty, ⟨#[1]⟩] ∧
      transport.receive.1 = .error (.frame (.decodeFailed .malformed)) ∧
      transport.receive.2.frames = [⟨#[1]⟩] ∧
      (transport.send ⟨4, "C", []⟩).1 = .error (.closed "C" 4) ∧
      (transport.send ⟨4, "C", []⟩).2 = transport := by
  intro transport
  obtain ⟨-, waiting, -, next, -, rest, -, sends⟩ := fifo wary [.send ⟨1, "", []⟩,
    .send ⟨2, "A", []⟩, .inject .empty, .close, .send ⟨3, "B", []⟩, .inject ⟨#[1]⟩, .receive]
  obtain ⟨closed, -, unchanged, -⟩ := sends ⟨4, "C", []⟩
  have refused := (closed "C" 4).2 ⟨by simp, rfl, rfl⟩
  exact ⟨waiting, next, rest, refused, unchanged _ refused⟩

end Loopback

end MessageArgs
