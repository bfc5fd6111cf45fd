import MessageArgs.Proofs.Encoding.Scalars
import MessageArgs.Proofs.Frame.RoundTrip
import MessageArgs.Transport

/-!
# What survives the transport

An envelope that is sent waits behind the frames that were sent before, whatever else is done in the
meantime (`frames_afterAll`). The receive that takes it gives it back exactly if it is readable
(`receiveAfter_iff`): its text must not nest deeper than readers follow, and the signatures among
its payloads must be ones that may be stored.

The encoder limits how deep arguments nest and not how deep their text does. All arguments of a
depth of at most 41 are received (`receive_sent`). But the standard limit is 64, and among arrays
around structs none that is deeper than 41 is received, although they are encoded and sent
(`towers_received_iff`).
-/

namespace MessageArgs

namespace Loopback

/-! ## Histories -/

/-- Something that is done with a transport. -/
inductive Action
  | send (envelope : Envelope)
  | inject (frame : ByteArray)
  | receive
  | close

/-- A transport after something is done with it. -/
def after (transport : Loopback) : Action → Loopback
  | .send envelope => (transport.send envelope).2
  | .inject frame => transport.inject frame
  | .receive => transport.receive.2
  | .close => transport.close

/-- A transport after some actions, one after the other. -/
def afterAll (transport : Loopback) (actions : List Action) : Loopback :=
  actions.foldl after transport

/-- How many of some actions take a frame. -/
def receives : List Action → Nat
  | [] => 0
  | .receive :: actions => receives actions + 1
  | _ :: actions => receives actions

variable {transport : Loopback} {frame : ByteArray} {ahead later : List ByteArray}

theorem codec_after (transport : Loopback) (action : Action) :
    (transport.after action).codec = transport.codec := by
  cases action with
  | send envelope =>
    rw [after, send]
    split
    · rfl
    · split <;> rfl
  | receive =>
    rw [after, receive]
    split
    · rfl
    · split <;> rfl
  | _ => rfl

/-- A receive takes the first frame, readable or not. -/
theorem frames_receive (transport : Loopback) :
    transport.receive.2.frames = transport.frames.tail := by
  rw [receive]
  cases waiting : transport.frames with
  | nil => exact waiting
  | cons first rest =>
    dsimp only
    split <;> rfl

/-- What is sent or put in waits behind all other frames. -/
theorem frames_send (transport : Loopback) (envelope : Envelope) :
    ∃ more, (transport.send envelope).2.frames = transport.frames ++ more := by
  rw [send]
  split
  · exact ⟨[], (List.append_nil _).symm⟩
  · split
    · exact ⟨[], (List.append_nil _).symm⟩
    · exact ⟨_, rfl⟩

/-- A frame has as many frames ahead of it as receives are still to come. -/
theorem frames_after {action : Action} {actions : List Action}
    (waiting : transport.frames = ahead ++ frame :: later)
    (all : receives (action :: actions) = ahead.length) :
    ∃ ahead' later', (transport.after action).frames = ahead' ++ frame :: later' ∧
      receives actions = ahead'.length := by
  cases action with
  | send envelope =>
    obtain ⟨more, grown⟩ := transport.frames_send envelope
    refine ⟨ahead, later ++ more, ?_, all⟩
    rw [after, grown, waiting, List.append_assoc, List.cons_append]
  | inject bytes =>
    refine ⟨ahead, later ++ [bytes], ?_, all⟩
    rw [after, inject, waiting, List.append_assoc, List.cons_append]
  | receive =>
    cases ahead with
    | nil => cases all
    | cons first rest =>
      refine ⟨rest, later, ?_, Nat.succ.inj all⟩
      rw [after, frames_receive, waiting]
      rfl
  | close => exact ⟨ahead, later, waiting, all⟩

/-- After as many receives as there are frames ahead of it, a frame is the next one. -/
theorem frames_afterAll {actions : List Action}
    (waiting : transport.frames = ahead ++ frame :: later)
    (all : receives actions = ahead.length) :
    ∃ later', (transport.afterAll actions).frames = frame :: later' ∧
      (transport.afterAll actions).codec = transport.codec := by
  induction actions generalizing transport ahead later with
  | nil =>
    cases List.eq_nil_of_length_eq_zero all.symm
    exact ⟨later, waiting, rfl⟩
  | cons action actions ih =>
    obtain ⟨ahead', later', moved, rest⟩ := frames_after waiting all
    obtain ⟨behind, next, codec⟩ := ih moved rest
    exact ⟨behind, next, codec.trans (transport.codec_after action)⟩

/-! ## Sent and received -/

/-- An open transport takes every envelope. -/
theorem send_json (envelope : Envelope) (json : transport.codec = .json)
    (opened : transport.isClosed = false) :
    transport.send envelope = (.ok (), transport.inject envelope.toJson.toFrame) := by
  rw [send, opened, json]
  rfl

theorem receive_json (json : transport.codec = .json) (next : transport.frames = frame :: later) :
    transport.receive.1 = ((Envelope.ofFrame frame).mapError TransportError.frame).map some := by
  rw [receive, next, json]
  simp only [FrameCodec.json]
  cases Envelope.ofFrame frame <;> rfl

end Loopback

/-- Readers follow the text of an envelope and take its payloads of type signature. -/
def Envelope.Readable (envelope : Envelope) : Prop :=
  envelope.toJson.nesting ≤ Json.maxNesting ∧ ∀ arg ∈ envelope.args, arg.EachScalar Scalar.Storable

theorem Envelope.ofFrame_error {frame : ByteArray} {error : CodecError}
    (h : Envelope.ofFrame frame = .error error) : ∃ fault, error = .decodeFailed fault := by
  rw [Envelope.ofFrame, readFrame] at h
  split at h
  · cases h
    exact ⟨_, rfl⟩
  · split at h
    · cases h
    · cases h
      exact ⟨_, rfl⟩

/-- An envelope and nothing else is received where it was written, if it is readable. -/
theorem Loopback.receive_written {transport : Loopback} {later : List ByteArray}
    {envelope : Envelope} (json : transport.codec = .json)
    (next : transport.frames = envelope.toJson.toFrame :: later)
    (formed : ∀ arg ∈ envelope.args, arg.WellFormed)
    (reproduced : ∀ arg ∈ envelope.args, arg.EachScalar Scalar.Reproduced) :
    (transport.receive.1 = .ok (some envelope) ↔ envelope.Readable) ∧
      (¬ envelope.Readable →
        ∃ fault, transport.receive.1 = .error (.frame (.decodeFailed fault))) := by
  have exactly : ∀ result, Envelope.ofFrame envelope.toJson.toFrame = .ok result ↔
      result = envelope ∧ envelope.Readable :=
    fun _ => Envelope.read_written_iff formed reproduced
  rw [receive_json json next]
  cases read : Envelope.ofFrame envelope.toJson.toFrame with
  | ok result =>
    obtain ⟨rfl, readable⟩ := (exactly result).1 read
    exact ⟨⟨fun _ => readable, fun _ => rfl⟩, fun unreadable => absurd readable unreadable⟩
  | error error =>
    obtain ⟨fault, rfl⟩ := Envelope.ofFrame_error read
    have unreadable : ¬ envelope.Readable := fun readable => by
      rw [(exactly envelope).2 ⟨rfl, readable⟩] at read
      cases read
    refine ⟨⟨fun same => ?_, fun readable => absurd readable unreadable⟩, fun _ => ⟨fault, rfl⟩⟩
    cases same

/-- What the receive after some actions gives, if an envelope is sent before them. -/
def Loopback.receiveAfter (transport : Loopback) (envelope : Envelope) (actions : List Action) :
    Except TransportError (Option Envelope) :=
  ((transport.send envelope).2.afterAll actions).receive.1

/-- The receive that takes the frame of an envelope. -/
theorem Loopback.receiveAfter_iff {transport : Loopback} {envelope : Envelope}
    (actions : List Action) (json : transport.codec = .json) (opened : transport.isClosed = false)
    (formed : ∀ arg ∈ envelope.args, arg.WellFormed)
    (reproduced : ∀ arg ∈ envelope.args, arg.EachScalar Scalar.Reproduced)
    (all : receives actions = transport.pending) :
    (transport.receiveAfter envelope actions = .ok (some envelope) ↔ envelope.Readable) ∧
      (¬ envelope.Readable → ∃ fault,
        transport.receiveAfter envelope actions = .error (.frame (.decodeFailed fault))) := by
  have sent := send_json envelope json opened
  have waiting : (transport.send envelope).2.frames =
      transport.frames ++ envelope.toJson.toFrame :: [] := by
    rw [sent]
    rfl
  obtain ⟨later, next, codec⟩ := frames_afterAll waiting all
  refine receive_written (codec.trans ?_) next formed reproduced
  rw [sent]
  exact json

/-- Signatures that are read from texts may be stored. -/
theorem Encoding.storable_of_encodeScalar {config : CodecConfig} (type : BasicType) (atom : Atom)
    (scalar : Scalar) (h : encodeScalar config type (.atom atom) = .ok scalar) :
    scalar.Storable := by
  obtain ⟨taken, rfl⟩ := encodeScalar_iff.1 h
  cases type with
  | signature =>
    cases atom with
    | string s =>
      obtain ⟨types, read⟩ := taken
      exact ⟨types, Grammar.read_mono read id (fun _ => rfl)⟩
    | _ => cases taken
  | _ => cases atom <;> trivial

/-! ## Towers -/

/-- Arrays and structs in some order, the outermost first, around an integer. -/
def CompleteType.tower : List Nesting → CompleteType
  | [] => .basic .int32
  | .array :: inner => .array (tower inner)
  | .struct :: inner => .struct [tower inner]

/-- Sequences of one item around an integer. -/
def Value.tower : Nat → Value
  | 0 => .atom (.int32 1)
  | height + 1 => .seq [tower height]

/-- Arrays of one item and structs of one member around an integer. -/
def Argument.tower : List Nesting → Argument
  | [] => .scalar (.int32 1)
  | .array :: inner =>
    .array (.ofType (.tower inner)) (.ofType (.array (.tower inner))) [tower inner]
  | .struct :: inner => .struct (.ofType (.struct [.tower inner])) [tower inner]

/-- Towers carry no arguments that are built already. -/
theorem Value.arguments_tower (height : Nat) : (tower height).arguments = [] := by
  induction height with
  | zero => rfl
  | succ height ih => simp [tower, arguments, argumentsOfAll, ih]

theorem Value.wellFormed_tower (height : Nat) : (tower height).WellFormed := by
  simp [WellFormed, arguments_tower]

theorem CompleteType.tag_tower (layers : List Nesting) :
    (tower layers).tag ≠ .dictEntry ∧ tower layers ≠ .variant := by
  rcases layers with _ | ⟨⟨⟩ | ⟨⟩, inner⟩ <;> simp [tower, tag]

theorem CompleteType.shaped_tower (layers : List Nesting) (welcome : Bool) :
    Shaped false welcome (tower layers) := by
  induction layers generalizing welcome with
  | nil => simp [tower, Shaped]
  | cons layer inner ih => cases layer <;> simp [tower, Shaped, AllShaped, ih]

theorem CompleteType.nesting_tower (kind : Nesting) (layers : List Nesting) :
    nesting kind (tower layers) = layers.count kind := by
  induction layers with
  | nil => rfl
  | cons layer inner ih =>
    cases layer <;> cases kind <;> simp [tower, nesting, nestingOfAll, ih]

theorem CompleteType.length_tower (layers : List Nesting) :
    (tower layers).chars.length = layers.count .array + 2 * layers.count .struct + 1 := by
  induction layers with
  | nil => rfl
  | cons layer inner ih =>
    cases layer <;> simp [tower, chars, charsAll, ih] <;> omega

theorem CompleteType.height_tower (layers : List Nesting) :
    layers.length = layers.count .array + layers.count .struct := by
  induction layers with
  | nil => rfl
  | cons layer inner ih => cases layer <;> simp [ih] <;> omega

/-- Towers are as high as signatures may nest. -/
theorem CompleteType.accepts_tower {layers : List Nesting}
    (fits : ∀ kind, layers.count kind ≤ kind.limit) : Grammar.caller.Accepts (tower layers) := by
  refine ⟨⟨shaped_tower layers _, fun kind => ?_⟩, ?_⟩
  · rw [nesting_tower]
    exact fits kind
  · have arrays : layers.count .array ≤ 32 := fits .array
    have structs : layers.count .struct ≤ 32 := fits .struct
    rw [length_tower, maxLength]
    omega

namespace Encoding

variable {config : CodecConfig}

theorem conforms_tower (layers : List Nesting) :
    Conforms config (.tower layers) (.tower layers.length) := by
  induction layers with
  | nil => trivial
  | cons layer inner ih =>
    cases layer with
    | array =>
      refine (conforms_seq_iff (CompleteType.tag_tower inner).1).2 ⟨?_, ?_⟩
      · rw [List.forall_mem_singleton]
        exact ih
      · exact fun variant => absurd variant (CompleteType.tag_tower inner).2
    | struct => exact ⟨ih, trivial⟩

theorem tree_tower (layers : List Nesting) :
    tree (.tower layers) (.tower layers.length) = .tower layers := by
  induction layers with
  | nil => rfl
  | cons layer inner ih =>
    cases layer with
    | array =>
      refine (tree_seq [.tower inner.length] (CompleteType.tag_tower inner).1).trans ?_
      rw [List.map_singleton, ih]
      rfl
    | struct =>
      have inside : treeAll [.tower inner] [.tower inner.length] = [.tower inner] := by
        rw [treeAll, ih]
        rfl
      show Argument.struct _ (treeAll [.tower inner] [.tower inner.length]) = _
      rw [inside]
      rfl

end Encoding

namespace Argument

theorem depth_tower (layers : List Nesting) : (tower layers).depth = layers.length := by
  induction layers with
  | nil => rfl
  | cons layer inner ih => cases layer <;> simp [tower, depth, depthOfAll, ih]

theorem nesting_tower (layers : List Nesting) :
    (tower layers).toJson.nesting = 3 * layers.length + 1 := by
  induction layers with
  | nil => rfl
  | cons layer inner ih =>
    have inside : (Json.list (toJsonAll [tower inner])).nesting = 3 * inner.length + 2 := by
      simp [toJsonAll, Json.nesting, Json.nestingOfAll, ih]
    cases layer with
    | array =>
      rw [tower, nesting_array, inside, List.length_cons]
      omega
    | struct =>
      rw [tower, nesting_struct, inside, List.length_cons]
      omega

theorem eachScalar_tower {P : Scalar → Prop} (h : P (.int32 1)) (layers : List Nesting) :
    (tower layers).EachScalar P := by
  induction layers with
  | nil => exact eachScalar_scalar.2 h
  | cons layer inner ih =>
    cases layer <;> simp [tower, eachScalar_array, eachScalar_struct, ih]

end Argument

namespace Envelope

variable {layers : List Nesting}

/-- An envelope around a tower. -/
def tower (seq : UInt64) (member : String) (layers : List Nesting) : Envelope :=
  ⟨seq, member, [.tower layers]⟩

theorem ofValues_tower (seq : UInt64) (member : String)
    (fits : ∀ kind, layers.count kind ≤ kind.limit) :
    ofValues seq member (CompleteType.tower layers).text [.tower layers.length] =
      .ok (tower seq member layers) := by
  have accepted := CompleteType.accepts_tower fits
  have read : Grammar.caller.read (CompleteType.tower layers).text = .ok [.tower layers] :=
    Grammar.read_text_iff.2 ⟨rfl, accepted⟩
  have height : (Argument.tower layers).depth ≤ 64 := by
    have arrays : layers.count .array ≤ 32 := fits .array
    have structs : layers.count .struct ≤ 32 := fits .struct
    rw [Argument.depth_tower, CompleteType.height_tower]
    omega
  have complete : Encoding.encodeComplete .standard (.tower layers) (.tower layers.length) =
      .ok (.tower layers) :=
    Encoding.encodeComplete_iff.2 ⟨(Encoding.encodeAs_iff accepted).2
      ⟨Encoding.conforms_tower layers, (Encoding.tree_tower layers).symm⟩, height⟩
  have encoded : encodeAll .standard (CompleteType.tower layers).text [.tower layers.length] =
      .ok [.tower layers] :=
    encodeAll_iff.2 ⟨_, read, rfl, .cons complete .nil⟩
  exact ofValues_ok_iff.2 ⟨_, encoded, rfl⟩

theorem readable_tower_iff {seq : UInt64} {member : String} :
    (tower seq member layers).Readable ↔ layers.length ≤ 41 := by
  have nesting : (tower seq member layers).toJson.nesting = 3 * layers.length + 3 := by
    simp [nesting_toJson, tower, Argument.toJsonAll, Json.nesting, Json.nestingOfAll,
      Argument.nesting_tower]
  have storable : ∀ arg ∈ (tower seq member layers).args, arg.EachScalar Scalar.Storable :=
    List.forall_mem_singleton.2 (Argument.eachScalar_tower trivial layers)
  rw [Readable, and_iff_left storable, nesting, Json.maxNesting]
  omega

theorem reproduced_tower (seq : UInt64) (member : String) (layers : List Nesting) :
    ∀ arg ∈ (tower seq member layers).args, arg.EachScalar Scalar.Reproduced :=
  List.forall_mem_singleton.2 (Argument.eachScalar_tower trivial layers)

theorem formed_tower {seq : UInt64} {member : String}
    (fits : ∀ kind, layers.count kind ≤ kind.limit) :
    ∀ arg ∈ (tower seq member layers).args, arg.WellFormed := by
  obtain ⟨args, encoded, same⟩ := ofValues_ok_iff.1 (ofValues_tower seq member fits)
  cases same
  exact encodeAll_wellFormed encoded (List.forall_mem_singleton.2 (Value.wellFormed_tower _))

end Envelope

/-- All towers are encoded and sent, and those of at most 41 layers are received. -/
theorem towers_received_iff {layers : List Nesting} {transport : Loopback} (seq : UInt64)
    (member : String) (fits : ∀ kind, layers.count kind ≤ kind.limit)
    (json : transport.codec = .json) (opened : transport.isClosed = false) :
    Envelope.ofValues seq member (CompleteType.tower layers).text [.tower layers.length] =
        .ok (.tower seq member layers) ∧
      (transport.send (.tower seq member layers)).1 = .ok () ∧
      ∀ actions, Loopback.receives actions = transport.pending →
        (transport.receiveAfter (.tower seq member layers) actions =
          .ok (some (.tower seq member layers)) ↔ layers.length ≤ 41) := by
  refine ⟨Envelope.ofValues_tower seq member fits, by rw [Loopback.send_json _ json opened],
    fun actions all => ?_⟩
  rw [← Envelope.readable_tower_iff]
  exact (Loopback.receiveAfter_iff actions json opened (Envelope.formed_tower fits)
    (Envelope.reproduced_tower seq member layers) all).1

/-- As many arrays as a signature may nest around some structs. -/
def highTower (structs : Nat) : List Nesting :=
  List.replicate 32 .array ++ List.replicate structs .struct

/-! ## Main results -/

/-- Open transports take what the encoder makes. The receive that takes its frame gives an envelope
back as it was if it is readable, and otherwise refuses the frame. Envelopes are readable unless
they nest deeper than 41 or carry signatures that may not be stored. -/
theorem receive_sent {seq : UInt64} {member text : String} {values : List Value}
    {envelope : Envelope} {transport : Loopback}
    (made : Envelope.ofValues seq member text values = .ok envelope)
    (formed : ∀ value ∈ values, value.WellFormed)
    (reproduced : ∀ arg ∈ envelope.args, arg.EachScalar Scalar.Reproduced)
    (json : transport.codec = .json) (opened : transport.isClosed = false) :
    (transport.send envelope).1 = .ok () ∧
      ∀ actions, Loopback.receives actions = transport.pending →
        (transport.receiveAfter envelope actions = .ok (some envelope) ↔ envelope.Readable) ∧
        (¬ envelope.Readable → ∃ fault,
          transport.receiveAfter envelope actions = .error (.frame (.decodeFailed fault))) ∧
        ((∀ value ∈ values, value.EachScalar Scalar.Storable) →
          (∀ arg ∈ envelope.args, arg.depth ≤ 41) →
          transport.receiveAfter envelope actions = .ok (some envelope)) := by
  obtain ⟨args, encoded, rfl⟩ := Envelope.ofValues_ok_iff.1 made
  have inside := encodeAll_wellFormed encoded formed
  refine ⟨by rw [Loopback.send_json _ json opened], fun actions all => ?_⟩
  obtain ⟨back, refused⟩ := Loopback.receiveAfter_iff actions json opened inside reproduced all
  refine ⟨back, refused, fun storable shallow => back.2 ⟨?_, ?_⟩⟩
  · exact Nat.le_trans (Envelope.nesting_le shallow) (by decide)
  · exact encodeAll_eachScalar Encoding.storable_of_encodeScalar encoded storable

/-- Behind a frame that is not readable, and after the transport is closed, the highest tower that
readers follow is received. -/
theorem receive_sent_highTower :
    Envelope.ofValues 1 "Deep" (CompleteType.tower (highTower 9)).text
        [.tower (highTower 9).length] = .ok (.tower 1 "Deep" (highTower 9)) ∧
      (((Loopback.ofCodec .json).inject ⟨#[0x7b]⟩).send (.tower 1 "Deep" (highTower 9))).1 =
        .ok () ∧
      ((Loopback.ofCodec .json).inject ⟨#[0x7b]⟩).receiveAfter (.tower 1 "Deep" (highTower 9))
        [.close, .receive] = .ok (some (.tower 1 "Deep" (highTower 9))) := by
  have fits : ∀ kind, (highTower 9).count kind ≤ kind.limit := by
    intro kind
    cases kind <;> decide
  have made := Envelope.ofValues_tower 1 "Deep" fits
  have json : ((Loopback.ofCodec .json).inject ⟨#[0x7b]⟩).codec = .json := rfl
  have sent := receive_sent made
    (List.forall_mem_singleton.2 (Value.wellFormed_tower _))
    (Envelope.reproduced_tower 1 "Deep" (highTower 9)) json rfl
  refine ⟨made, sent.1, (sent.2 [.close, .receive] rfl).2.2 ?_ ?_⟩
  · exact List.forall_mem_singleton.2 (by simp [Value.EachScalar, Value.arguments_tower])
  · refine List.forall_mem_singleton.2 (Nat.le_of_eq ?_)
    exact Argument.depth_tower (highTower 9)

/-- A tower of 42 layers is within all limits of signatures and of the encoder and is sent, but its
frame is refused. -/
theorem highTower_not_received :
    Envelope.ofValues 1 "Deep" "aaaaaaaaaaaaaaaaaaaaaaaaaaaaaaaa((((((((((i))))))))))" [.tower 42] =
        .ok (.tower 1 "Deep" (highTower 10)) ∧
      (∀ arg ∈ (Envelope.tower 1 "Deep" (highTower 10)).args,
        arg.EachScalar Scalar.Reproduced) ∧
      ((Loopback.ofCodec .json).send (.tower 1 "Deep" (highTower 10))).1 = .ok () ∧
      ∃ fault, (Loopback.ofCodec .json).receiveAfter (.tower 1 "Deep" (highTower 10)) [] =
        .error (.frame (.decodeFailed fault)) := by
  have fits : ∀ kind, (highTower 10).count kind ≤ kind.limit := by
    intro kind
    cases kind <;> decide
  have reproduced := Envelope.reproduced_tower 1 "Deep" (highTower 10)
  have high : ¬ (Envelope.tower 1 "Deep" (highTower 10)).Readable := by
    rw [Envelope.readable_tower_iff]
    decide
  have spelled : (CompleteType.tower (highTower 10)).text =
      "aaaaaaaaaaaaaaaaaaaaaaaaaaaaaaaa((((((((((i))))))))))" := by decide +kernel
  have made := Envelope.ofValues_tower 1 "Deep" fits
  have height : (highTower 10).length = 42 := rfl
  rw [spelled, height] at made
  have json : (Loopback.ofCodec .json).codec = .json := rfl
  exact ⟨made, reproduced, rfl, (Loopback.receiveAfter_iff [] json rfl
    (Envelope.formed_tower fits) reproduced rfl).2 high⟩

end MessageArgs
