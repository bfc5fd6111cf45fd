import MessageArgs.Proofs.Typed.Acceptance

/-!
# Typed round trips

A member of a native type that becomes an argument is read off the argument again, and the argument
has the signature of the type. A map may list its pairs in any order. For types without arguments
nothing stands in the way but the signature itself: if it is accepted, so is every member.

Here an error would be a key that comes twice, a value that does not fit its type, or an argument
that is too deep; `NativeType.steady` and `Encoding.encodeAs_depth_le` exclude them.
-/

namespace MessageArgs

namespace Argument

variable {type : NativeType} {complete : CompleteType} {shown : Value} {arg : Argument}

theorem ofShown_ok_iff (parsed : Signature.parseSingle type.signature = .ok (.ofType complete))
    (accepted : Grammar.caller.Accepts complete) :
    ofShown type shown = .ok arg ↔ Encoding.encodeAs .standard complete shown = .ok arg ∧
      arg.depth ≤ CodecConfig.standard.maxDepth := by
  have encoding : ofShown type shown = Encoding.encodeComplete .standard complete shown := by
    rw [ofShown, parsed, ← encodeSignature_ofType accepted]
    rfl
  rw [encoding, Encoding.encodeComplete_iff]

/-- Nothing is encoded under a signature that is refused. -/
theorem ofShown_of_refused {refusal : SignatureError}
    (refused : Signature.parseSingle type.signature = .error refusal) (shown : Value) :
    ofShown type shown = .error (.signature refusal) := by
  rw [ofShown, refused]
  rfl

theorem exists_parsed_of_ofShown (h : ofShown type shown = .ok arg) :
    ∃ complete, Signature.parseSingle type.signature = .ok (.ofType complete) ∧
      type.account.type? = some complete ∧ type.signature = complete.text ∧
      Grammar.caller.Accepts complete := by
  cases parsed : Signature.parseSingle type.signature with
  | error refusal =>
    rw [ofShown_of_refused parsed] at h
    cases h
  | ok signature =>
    obtain ⟨complete, named, text, accepted, rfl⟩ := NativeType.type?_of_parseSingle parsed
    exact ⟨complete, rfl, named, text, accepted⟩

/-- What was encoded for a member is read as the same member. -/
theorem toTyped_of_ofShown (legal : type.account.isLegal = true) {x : type.model.Carrier}
    (proper : type.account.Proper x) (bare : type.account.Bare x)
    (shows : type.account.Shows x shown) (h : ofShown type shown = .ok arg) :
    arg.signature.text = type.signature ∧
      ∃ y, arg.toTyped type = .ok y ∧ type.account.Same x y := by
  obtain ⟨complete, parsed, named, text, accepted⟩ := exists_parsed_of_ofShown h
  obtain ⟨encoded, -⟩ := (ofShown_ok_iff parsed accepted).1 h
  obtain ⟨conforms, rfl⟩ := (Encoding.encodeAs_iff accepted).1 encoded
  have lawful := type.lawful legal
  have wide : Grammar.widest.Accepts complete := accepted.mono nofun fun _ => rfl
  have decoded := Decoding.comesBack wide shown _ encoded (lawful.readable named shows)
  obtain ⟨y, read, same⟩ := lawful.returns named proper bare shows conforms
  refine ⟨?_, y, ?_, same⟩
  · rw [Encoding.signature_tree conforms accepted.ne_wildcard, text]
    rfl
  · rw [toTyped, parsed]
    refine bind_ok_iff.2 ⟨_, rfl, bind_ok_iff.2 ⟨_, ?_, read⟩⟩
    rw [decodeSignature_ofType accepted]
    exact decoded

/-- Members without arguments are encoded under every signature that is accepted. -/
theorem exists_ofShown (legal : type.account.isLegal = true) (plain : type.account.isPlain = true)
    {x : type.model.Carrier} (proper : type.account.Proper x) (shows : type.account.Shows x shown)
    {signature : Signature} (parsed : Signature.parseSingle type.signature = .ok signature) :
    ∃ arg, ofShown type shown = .ok arg := by
  obtain ⟨complete, named, text, accepted, rfl⟩ := NativeType.type?_of_parseSingle parsed
  have steady := type.steady legal plain
  have conforms := steady.conforms named proper shows
  have encoded := (Encoding.encodeAs_iff accepted).2 ⟨conforms, rfl⟩
  have shallow := Encoding.encodeAs_depth_le encoded (steady.plain shows)
  exact ⟨_, (ofShown_ok_iff parsed accepted).2 ⟨encoded, shallow⟩⟩

end Argument

/-- Typed round trips, for every type whose maps have keys with an order and in whichever order the
maps list their pairs: what a member becomes has the signature of the type and is read as the same
member, if no argument in the member is a variant. For types without arguments, every member is
encoded if the signature is accepted, and otherwise the signature is the error. -/
theorem NativeType.members_round_trip (type : NativeType) (legal : type.account.isLegal = true) :
    (∀ x, ∃ shown, type.account.Shows x shown ∧
      Argument.ofTyped type x = Argument.ofShown type shown) ∧
    (∀ x shown arg, type.account.Proper x → type.account.Bare x → type.account.Shows x shown →
      Argument.ofShown type shown = .ok arg →
        arg.signature.text = type.signature ∧
          ∃ y, arg.toTyped type = .ok y ∧ type.account.Same x y) ∧
    (type.account.isPlain = true →
      ∀ x shown, type.account.Proper x → type.account.Shows x shown →
        ((∃ arg, Argument.ofShown type shown = .ok arg) ↔
          ∃ signature, Signature.parseSingle type.signature = .ok signature) ∧
        ∀ error, Argument.ofShown type shown = .error error →
          ∃ refusal, Signature.parseSingle type.signature = .error refusal ∧
            error = .signature refusal) := by
  refine ⟨fun x => ⟨_, (type.lawful legal).shows x, rfl⟩, ?_, ?_⟩
  · intro x shown arg proper bare shows encoded
    exact Argument.toTyped_of_ofShown legal proper bare shows encoded
  · intro plain x shown proper shows
    cases parsed : Signature.parseSingle type.signature with
    | ok signature =>
      obtain ⟨arg, encoded⟩ := Argument.exists_ofShown legal plain proper shows parsed
      rw [encoded]
      exact ⟨⟨fun _ => ⟨signature, rfl⟩, fun _ => ⟨arg, rfl⟩⟩, nofun⟩
    | error refusal =>
      rw [Argument.ofShown_of_refused parsed shown]
      exact ⟨⟨nofun, nofun⟩, fun error same => ⟨refusal, rfl, (Except.error.inj same).symm⟩⟩

/-- Levels by name. The map lists the second name first. -/
theorem NativeType.members_round_trip_levels :
    let type : NativeType := .map .string (.tuple2 .single (.list .uint16))
    let bass : String × Number.Single × List UInt16 × Unit := ("bass", ⟨0x3fc00000⟩, [7, 8], ())
    let mid : String × Number.Single × List UInt16 × Unit := ("mid", ⟨0xff800000⟩, [], ())
    let shown : Value := .map [
      (.atom (.string "mid"), .seq [.atom (.single ⟨0xff800000⟩), .seq []]),
      (.atom (.string "bass"),
        .seq [.atom (.single ⟨0x3fc00000⟩), .seq [.atom (.uint16 7), .atom (.uint16 8)]])]
    type.account.isLegal = true ∧
      ∃ arg, Argument.ofShown type shown = .ok arg ∧ arg.signature.text = "a\x7bs(daq)\x7d" ∧
        ∃ y, arg.toTyped type = .ok y ∧ type.account.Same [bass, mid] y := by
  intro type bass mid shown
  have legal : type.account.isLegal = true := rfl
  have proper : type.account.Proper [bass, mid] := by
    refine ⟨List.pairwise_pair.2 (by decide), fun _ _ => ⟨trivial, trivial, ?_, trivial⟩⟩
    exact fun _ _ => trivial
  have bare : type.account.Bare [bass, mid] := by
    exact fun _ _ => ⟨trivial, trivial, fun _ _ => trivial, trivial⟩
  have shows : type.account.Shows [bass, mid] shown := by
    refine ⟨[mid, bass], _, .swap _ _ _, rfl, ?_⟩
    refine .cons ⟨rfl, _, rfl, _, _, rfl, rfl, _, _, rfl, ⟨_, rfl, .nil⟩, rfl⟩
      (.cons ⟨rfl, _, rfl, _, _, rfl, rfl, _, _, rfl, ⟨_, rfl, ?_⟩, rfl⟩ .nil)
    exact .cons rfl (.cons rfl .nil)
  have text : type.signature = "a\x7bs(daq)\x7d" := rfl
  have parsed : Signature.parseSingle type.signature = .ok ⟨"a\x7bs(daq)\x7d"⟩ := by
    rw [text]
    rfl
  obtain ⟨-, returns, accepts⟩ := members_round_trip type legal
  obtain ⟨arg, encoded⟩ := (accepts rfl [bass, mid] shown proper shows).1.2 ⟨_, parsed⟩
  obtain ⟨signature, y, read, same⟩ := returns [bass, mid] shown arg proper bare shows encoded
  exact ⟨legal, arg, encoded, text ▸ signature, y, read, same⟩

end MessageArgs
