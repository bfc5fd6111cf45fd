import MessageArgs.Proofs.ArgList.Bulk
import MessageArgs.Proofs.Encoding.Depth
import MessageArgs.Proofs.Loosening

/-!
# The limit on depth

The encoder asks for the limit on depth only when an argument is complete. Nothing that it does in
the slots of a type fails for the depth (`encodeAs_local`) or depends on the limit
(`encodeAs_withMaxDepth`), so a call under a limit is the call without one, with the depth of the
result compared afterwards (`LimitedByDepth`).

Values that carry no arguments stay within the limit that applies unless another one is given, since
the limits on signatures keep them there.
-/

namespace MessageArgs

/-- An error that one place of a value accounts for. All are but that of the depth, which is a
matter of the whole value. -/
def CodecError.Local : CodecError → Prop
  | tooDeep _ _ => False
  | _ => True

namespace CodecError

theorem Local.ne_tooDeep {error : CodecError} (h : error.Local) (depth max : Nat) :
    error ≠ .tooDeep depth max := by
  rintro rfl
  exact h

theorem local_ofBuild (cause : BuildError) : (ofBuild cause).Local := by
  cases cause <;> exact trivial

end CodecError

/-! ## Nothing inside fails for the depth -/

theorem Scalar.ofAtom_local (type : BasicType) (atom : Atom) :
    FailsFor CodecError.Local (ofAtom type atom) := by
  unfold ofAtom
  split
  case h_13 => exact (failsFor_mapError fun _ => trivial).map _
  case h_14 => exact failsFor_error trivial
  all_goals exact failsFor_ok _

namespace Encoding

variable {config : CodecConfig} {type : CompleteType} {value : Value}

theorem encodeScalar_local (type : BasicType) (value : Value) :
    FailsFor CodecError.Local (encodeScalar config type value) := by
  have read : FailsFor CodecError.Local (Scalar.ofValue type value) := by
    cases value with
    | atom atom => exact Scalar.ofAtom_local type atom
    | _ => exact failsFor_error trivial
  rw [encodeScalar]
  split
  · rename_i error failed
    exact failsFor_error (read error failed)
  · split
    · exact failsFor_error trivial
    · exact failsFor_ok _
  · exact failsFor_ok _

theorem encodeKey_local (type : BasicType) (value : Value) :
    FailsFor CodecError.Local (encodeKey config type value) := by
  unfold encodeKey
  split
  · split
    · exact failsFor_ok _
    · exact failsFor_error trivial
  · exact failsFor_error trivial
  · exact encodeScalar_local type value

theorem checkUniformContents_local (items : List Argument) :
    FailsFor CodecError.Local (checkUniformContents items) := by
  unfold checkUniformContents
  split
  · exact failsFor_ok _
  · split
    · exact failsFor_ok _
    · exact failsFor_error trivial

theorem buildArray_local (element : CompleteType) (items : List Argument) :
    FailsFor CodecError.Local (buildArray element items) := by
  unfold buildArray
  split
  · exact failsFor_mapError CodecError.local_ofBuild
  · exact (checkUniformContents_local items).bind fun _ _ =>
      failsFor_mapError CodecError.local_ofBuild
  · exact (failsFor_mapError fun _ => trivial).bind fun _ _ =>
      failsFor_mapError CodecError.local_ofBuild

theorem buildDictionary_local (entry : CompleteType) (keyed : List (String × Argument)) :
    FailsFor CodecError.Local (buildDictionary config entry keyed) := by
  have kept : FailsFor CodecError.Local (config.duplicateKeys.apply keyed) := by
    intro error failed
    obtain ⟨name, rfl⟩ := DuplicateKeys.apply_error failed
    exact trivial
  exact kept.bind fun _ _ => (failsFor_mapError fun _ => trivial).bind fun _ _ =>
    failsFor_mapError CodecError.local_ofBuild

theorem encodeAs_arg_local (type : CompleteType) (given : Argument) :
    FailsFor CodecError.Local (encodeAs config type (.arg given)) := by
  by_cases named : type = .variant
  · subst named
    cases given <;> exact failsFor_ok _
  · by_cases resolved : type = .wildcard
    · subst resolved
      exact failsFor_ok _
    · obtain ⟨otherwise, kept⟩ := @encodeAs_arg config type given named resolved
      rw [kept, keepArgument]
      split
      · exact failsFor_ok _
      · exact failsFor_error trivial

/-- Nothing that is done in a slot fails for the depth. -/
theorem encodeAs_local (type : CompleteType) (value : Value) :
    FailsFor CodecError.Local (encodeAs config type value) := by
  induction type using CompleteType.slots generalizing value with
  | basic type =>
    cases value with
    | arg given => exact encodeAs_arg_local _ given
    | atom atom => exact (encodeScalar_local type (.atom atom)).map _
    | _ => exact failsFor_error trivial
  | variant =>
    cases value with
    | arg given => exact encodeAs_arg_local _ given
    | _ => exact failsFor_error trivial
  | wildcard =>
    cases value with
    | arg given => exact encodeAs_arg_local _ given
    | _ => exact failsFor_error trivial
  | dictionary key element ih =>
    cases value with
    | arg given => exact encodeAs_arg_local _ given
    | map pairs =>
      rw [encodeAs_dictionary_map]
      refine (failsFor_mapM fun pair _ => ?_).bind fun keyed _ => buildDictionary_local _ keyed
      exact (encodeKey_local key pair.1).bind fun name _ => (ih pair.2).bind fun content _ =>
        (failsFor_mapError CodecError.local_ofBuild).bind fun entry _ => failsFor_ok _
    | _ => exact failsFor_error trivial
  | array element other ih =>
    cases value with
    | arg given => exact encodeAs_arg_local _ given
    | seq items =>
      rw [encodeAs_array_seq other]
      exact (failsFor_mapM fun item _ => ih item).bind fun built _ => buildArray_local element built
    | atom atom =>
      rw [encodeAs_array_mismatch other (.atom atom) nofun nofun]
      exact failsFor_error trivial
    | map pairs =>
      rw [encodeAs_array_mismatch other (.map pairs) nofun nofun]
      exact failsFor_error trivial
  | struct types ih =>
    cases value with
    | arg given => exact encodeAs_arg_local _ given
    | seq items =>
      rw [encodeAs, keepArgument]
      split
      · exact failsFor_error trivial
      · rw [encodeMembers_eq]
        refine (failsFor_mapM fun slot member => ?_).bind fun built _ =>
          failsFor_mapError CodecError.local_ofBuild
        exact ih slot.1 (List.of_mem_zip member).1 slot.2
      · simp
    | _ => exact failsFor_error trivial
  | entry key element =>
    cases value with
    | arg given => exact encodeAs_arg_local _ given
    | _ => exact failsFor_error trivial

end Encoding

/-! ## Calls under a limit -/

/-- The same settings with another limit on the depth. -/
def CodecConfig.withMaxDepth (config : CodecConfig) (limit : Nat) : CodecConfig :=
  { config with maxDepth := limit }

/-- What a call returns if the depth is not limited: what it returns under every limit from some
limit on. -/
def Unlimited (call : Nat → Except CodecError Argument) (arg : Argument) : Prop :=
  ∃ enough, ∀ limit, enough ≤ limit → call limit = .ok arg

/-- A call under a limit is the call without one, with the depth of what that returns compared to
the limit. -/
structure LimitedByDepth (call : Nat → Except CodecError Argument) : Prop where
  ok_iff (limit : Nat) (arg : Argument) :
    call limit = .ok arg ↔ Unlimited call arg ∧ arg.depth ≤ limit
  tooDeep_iff (limit depth max : Nat) : call limit = .error (.tooDeep depth max) ↔
    max = limit ∧ ∃ arg, Unlimited call arg ∧ arg.depth = depth ∧ max < depth

/-- A call that fails for another cause under every limit is not limited by depth in particular. -/
theorem limitedByDepth_error {error : CodecError} (inside : error.Local) :
    LimitedByDepth fun _ => .error error := by
  have nothing : ∀ arg, ¬ Unlimited (fun _ => .error error) arg := by
    rintro arg ⟨enough, returned⟩
    cases returned enough (Nat.le_refl _)
  constructor
  · intro limit arg
    simp [nothing]
  · intro limit depth max
    simp [nothing, inside.ne_tooDeep depth max]

namespace Encoding

variable {config : CodecConfig} {type : CompleteType} {value : Value}

theorem checkDepth_error_iff {built : Argument} {error : CodecError} :
    checkDepth config built = .error error ↔
      config.maxDepth < built.depth ∧ error = .tooDeep built.depth config.maxDepth := by
  rw [checkDepth]
  split
  · rename_i deep
    simp [deep, eq_comm]
  · rename_i shallow
    simp [shallow]

/-- What is encoded in a slot does not depend on the limit. -/
theorem encodeAs_withMaxDepth {arg : Argument} {limit : Nat} (limit' : Nat)
    (h : encodeAs (config.withMaxDepth limit) type value = .ok arg) :
    encodeAs (config.withMaxDepth limit') type value = .ok arg := by
  have lax : (config.withMaxDepth limit').LaxerThan (config.withMaxDepth limit) :=
    ⟨.inl rfl, .inl rfl⟩
  exact lax.ok_encodeAs h

/-- Without a limit, a call returns what is encoded under any limit. -/
theorem unlimited_encodeComplete_iff {arg : Argument} (limit : Nat) :
    Unlimited (fun limit => encodeComplete (config.withMaxDepth limit) type value) arg ↔
      encodeAs (config.withMaxDepth limit) type value = .ok arg := by
  constructor
  · rintro ⟨enough, returned⟩
    have encoded := encodeComplete_iff.1 (returned enough (Nat.le_refl _))
    exact encodeAs_withMaxDepth limit encoded.1
  · intro encoded
    refine ⟨arg.depth, fun limit' deep => encodeComplete_iff.2 ⟨?_, deep⟩⟩
    exact encodeAs_withMaxDepth limit' encoded

/-- The limit bounds what a call returns, and only the comparison at the end can name a depth. -/
theorem limitedByDepth_encodeComplete (config : CodecConfig) (type : CompleteType) (value : Value) :
    LimitedByDepth fun limit => encodeComplete (config.withMaxDepth limit) type value := by
  constructor
  · intro limit arg
    rw [unlimited_encodeComplete_iff limit]
    exact encodeComplete_iff
  · intro limit depth max
    simp only [unlimited_encodeComplete_iff limit]
    rw [encodeComplete, bind_error_iff]
    constructor
    · rintro (inside | ⟨arg, encoded, refused⟩)
      · exact (encodeAs_local type value _ inside).elim
      · obtain ⟨deep, same⟩ := checkDepth_error_iff.1 refused
        cases same
        exact ⟨rfl, arg, encoded, rfl, deep⟩
    · rintro ⟨rfl, arg, encoded, rfl, deep⟩
      exact .inr ⟨arg, encoded, checkDepth_error_iff.2 ⟨deep, rfl⟩⟩

/-- Within the limits on signatures, nothing is too deep without arguments. -/
theorem encodeComplete_local (enough : maxArrays + maxStructs ≤ config.maxDepth)
    (plain : value.Plain) : FailsFor CodecError.Local (encodeComplete config type value) := by
  refine (encodeAs_local type value).bind fun arg encoded error refused => ?_
  have bound := encodeAs_depth_le encoded plain
  obtain ⟨deep, -⟩ := checkDepth_error_iff.1 refused
  omega

end Encoding

variable {config : CodecConfig} {text : String} {value : Value} {values : List Value}

theorem limitedByDepth_encodeSignature (config : CodecConfig) (signature : Signature)
    (value : Value) :
    LimitedByDepth fun limit => encodeSignature (config.withMaxDepth limit) signature value := by
  unfold encodeSignature
  cases signature.single with
  | error error => exact limitedByDepth_error trivial
  | ok type => exact Encoding.limitedByDepth_encodeComplete config type value

theorem limitedByDepth_encode (config : CodecConfig) (text : String) (value : Value) :
    LimitedByDepth fun limit => encode (config.withMaxDepth limit) text value := by
  unfold encode
  cases Signature.parseSingle text with
  | error error => exact limitedByDepth_error trivial
  | ok signature => exact limitedByDepth_encodeSignature config signature value

theorem limitedByDepth_encodeInferred (config : CodecConfig) (values : List Value) :
    LimitedByDepth fun limit => encodeInferred (config.withMaxDepth limit) values := by
  simp only [encodeInferred_eq]
  exact Encoding.limitedByDepth_encodeComplete config _ _

/-- Encoding several values is encoding each of them under an element of the signature, whose text
is read again as the type that it was read as. -/
theorem encodeAll_eq {elements : List String} (split : Grammar.caller.split text = .ok elements)
    (arity : elements.length = values.length) (config : CodecConfig) :
    encodeAll config text values =
      (elements.zip values).mapM fun slot => encode config slot.1 slot.2 := by
  obtain ⟨types, read, rfl⟩ := Grammar.split_ok_iff.1 split
  rw [List.length_map] at arity
  rw [encodeAll_of_read read arity, Encoding.encodeEach_eq, List.zip_map_left, List.mapM_map]
  refine mapM_congr fun slot member => ?_
  have single := Grammar.read_element read slot.1 (List.of_mem_zip member).1
  exact (encode_of_single single config slot.2).symm

/-- The depth comes up where the values are encoded one by one, or nowhere. -/
theorem encodeAll_tooDeep_split {depth max : Nat} :
    encodeAll config text values = .error (.tooDeep depth max) ↔
      ∃ elements, Grammar.caller.split text = .ok elements ∧ elements.length = values.length ∧
        (elements.zip values).mapM (fun slot => encode config slot.1 slot.2) =
          .error (.tooDeep depth max) := by
  constructor
  · intro failed
    rcases bind_error_iff.1 failed with unread | ⟨types, read, refused⟩
    · obtain ⟨cause, -, impossible⟩ := mapError_error_iff.1 unread
      cases impossible
    · split at refused
      · cases refused
      · rename_i arity
        rw [mapError_ok_iff] at read
        have divided : Grammar.caller.split text = .ok (types.map CompleteType.text) :=
          Grammar.split_ok_iff.2 ⟨types, read, rfl⟩
        have same : (types.map CompleteType.text).length = values.length := by
          rw [List.length_map]
          exact not_not.1 arity
        refine ⟨_, divided, same, ?_⟩
        rw [← encodeAll_eq divided same, failed]
  · rintro ⟨elements, divided, arity, failed⟩
    rw [encodeAll_eq divided arity, failed]

/-- The first value that is too deep is named, if no value before it fails. -/
theorem encodeAll_tooDeep_iff {depth max : Nat} :
    encodeAll config text values = .error (.tooDeep depth max) ↔
      max = config.maxDepth ∧ ∃ elements, Grammar.caller.split text = .ok elements ∧
        elements.length = values.length ∧ ∃ before element value after,
          elements.zip values = before ++ (element, value) :: after ∧
          (∀ slot ∈ before, ∃ arg, encode config slot.1 slot.2 = .ok arg ∧
            arg.depth ≤ config.maxDepth) ∧
          ∃ arg, Unlimited (fun limit => encode (config.withMaxDepth limit) element value) arg ∧
            arg.depth = depth ∧ max < depth := by
  have deep : ∀ element value, encode config element value = .error (.tooDeep depth max) ↔ _ :=
    fun element value => (limitedByDepth_encode config element value).tooDeep_iff _ depth max
  have shallow : ∀ element value arg, encode config element value = .ok arg →
      arg.depth ≤ config.maxDepth := fun element value arg encoded =>
    (((limitedByDepth_encode config element value).ok_iff config.maxDepth arg).1 encoded).2
  rw [encodeAll_tooDeep_split]
  constructor
  · rintro ⟨elements, divided, arity, failed⟩
    obtain ⟨before, ⟨element, value⟩, after, split, passed, last⟩ := mapM_error_iff.1 failed
    obtain ⟨same, arg, unlimited, measured, deeper⟩ := (deep element value).1 last
    refine ⟨same, elements, divided, arity, before, element, value, after, split, ?_, arg,
      unlimited, measured, deeper⟩
    intro slot member
    obtain ⟨arg, encoded⟩ := passed slot member
    exact ⟨arg, encoded, shallow _ _ arg encoded⟩
  · rintro ⟨same, elements, divided, arity, before, element, value, after, split, passed, arg,
      unlimited, measured, deeper⟩
    refine ⟨elements, divided, arity, mapM_error_iff.2
      ⟨before, (element, value), after, split, ?_, ?_⟩⟩
    · intro slot member
      obtain ⟨arg, encoded, -⟩ := passed slot member
      exact ⟨arg, encoded⟩
    · exact (deep element value).2 ⟨same, arg, unlimited, measured, deeper⟩

/-! ## Values without arguments -/

theorem encodeSignature_local (enough : maxArrays + maxStructs ≤ config.maxDepth)
    (signature : Signature) (plain : value.Plain) :
    FailsFor CodecError.Local (encodeSignature config signature value) :=
  (failsFor_mapError fun _ => trivial).bind fun _ _ => Encoding.encodeComplete_local enough plain

theorem encode_local (enough : maxArrays + maxStructs ≤ config.maxDepth) (text : String)
    (plain : value.Plain) : FailsFor CodecError.Local (encode config text value) :=
  (failsFor_mapError fun _ => trivial).bind fun signature _ =>
    encodeSignature_local enough signature plain

theorem encodeInferred_local (enough : maxArrays + maxStructs ≤ config.maxDepth)
    (plain : ∀ value ∈ values, value.Plain) :
    FailsFor CodecError.Local (encodeInferred config values) := by
  rw [encodeInferred_eq]
  exact Encoding.encodeComplete_local enough (Value.plain_seq_iff.2 plain)

theorem encodeAll_local (enough : maxArrays + maxStructs ≤ config.maxDepth) (text : String)
    (plain : ∀ value ∈ values, value.Plain) :
    FailsFor CodecError.Local (encodeAll config text values) := by
  refine (failsFor_mapError fun _ => trivial).bind fun types _ => ?_
  split
  · exact failsFor_error trivial
  · rw [Encoding.encodeEach_eq]
    exact failsFor_mapM fun slot member =>
      Encoding.encodeComplete_local enough (plain slot.2 (List.of_mem_zip member).2)

/-! ## Main result -/

/-- The limits on signatures imply the limit on depth that applies unless another one is given. An
argument without variants is at most as deep as a path of its type has containers, and so at most 64
deep. Hence no value without arguments is too deep, if 64 is allowed. In general a call fails for
the depth exactly if it would return an argument that is deeper than allowed, and names both depths;
for several values that is the first such argument, and all before it are returned. -/
theorem depth_limits :
    (∀ arg : Argument, arg.WellFormed → arg.VariantFree →
      (∃ type, arg.signature = .ofType type ∧
        ∃ path ∈ type.paths, arg.depth ≤ path.count .array + path.count .struct) ∧
      arg.depth ≤ 64) ∧
    (∀ config : CodecConfig, 64 ≤ config.maxDepth → ∀ depth max,
      (∀ text value, value.Plain → encode config text value ≠ .error (.tooDeep depth max)) ∧
      (∀ signature value, value.Plain →
        encodeSignature config signature value ≠ .error (.tooDeep depth max)) ∧
      (∀ text values, (∀ value ∈ values, value.Plain) →
        encodeAll config text values ≠ .error (.tooDeep depth max)) ∧
      ∀ values, (∀ value ∈ values, value.Plain) →
        encodeInferred config values ≠ .error (.tooDeep depth max)) ∧
    ∀ config : CodecConfig,
      (∀ text value, LimitedByDepth fun limit => encode (config.withMaxDepth limit) text value) ∧
      (∀ signature value,
        LimitedByDepth fun limit => encodeSignature (config.withMaxDepth limit) signature value) ∧
      (∀ values, LimitedByDepth fun limit => encodeInferred (config.withMaxDepth limit) values) ∧
      ∀ text values depth max, encodeAll config text values = .error (.tooDeep depth max) ↔
        max = config.maxDepth ∧ ∃ elements, Grammar.caller.split text = .ok elements ∧
          elements.length = values.length ∧ ∃ before element value after,
            elements.zip values = before ++ (element, value) :: after ∧
            (∀ slot ∈ before, ∃ arg, encode config slot.1 slot.2 = .ok arg ∧
              arg.depth ≤ config.maxDepth) ∧
            ∃ arg, Unlimited (fun limit => encode (config.withMaxDepth limit) element value) arg ∧
              arg.depth = depth ∧ max < depth := by
  refine ⟨fun arg formed free => ⟨?_, Argument.depth_le_limits formed free⟩, ?_, ?_⟩
  · obtain ⟨type, same, -⟩ := formed.typed
    obtain ⟨path, member, bound⟩ := Argument.exists_path formed free same
    exact ⟨type, same, path, member, CompleteType.length_path path ▸ bound⟩
  · intro config enough depth max
    refine ⟨fun text value plain failed => ?_, fun signature value plain failed => ?_,
      fun text values plain failed => ?_, fun values plain failed => ?_⟩
    · exact encode_local enough text plain _ failed
    · exact encodeSignature_local enough signature plain _ failed
    · exact encodeAll_local enough text plain _ failed
    · exact encodeInferred_local enough plain _ failed
  · intro config
    exact ⟨limitedByDepth_encode config, limitedByDepth_encodeSignature config,
      limitedByDepth_encodeInferred config, fun _ _ _ _ => encodeAll_tooDeep_iff⟩

/-- Bytes in two arrays, under the usual limit and under one that is too low for them. -/
theorem depth_limits_nested :
    let low : CodecConfig := { maxDepth := 1 }
    let nested : Value := .seq [.seq [.atom (.byte 7)]]
    let arg : Argument := .array ⟨"ay"⟩ ⟨"aay"⟩ [.array ⟨"y"⟩ ⟨"ay"⟩ [.scalar (.byte 7)]]
    (encode .standard "aay" nested = .ok arg ∧ arg.depth ≤ 64) ∧
      encodeAll .standard "aay" [nested] ≠ .error (.tooDeep 2 64) ∧
      encode low "aay" nested = .error (.tooDeep 2 1) ∧
      encodeAll low "yaay" [.atom (.byte 7), nested] = .error (.tooDeep 2 1) := by
  intro low nested arg
  obtain ⟨bounded, fits, limited⟩ := depth_limits
  have plain : nested.Plain := by
    simp [nested, Value.plain_seq_iff, Value.plain_atom]
  have encoded : encode .standard "aay" nested = .ok arg := rfl
  have free : arg.VariantFree := by
    simp [arg, Argument.variantFree_array_iff, Argument.variantFree_scalar]
  obtain ⟨encodes, -, -, encodesAll⟩ := limited low
  have unlimited := ((encodes "aay" nested).ok_iff 64 arg).1 encoded
  refine ⟨⟨encoded, ?_⟩, ?_, ?_, ?_⟩
  · exact (bounded arg (encode_wellFormed encoded plain.wellFormed) free).2
  · exact (fits .standard (by decide) 2 64).2.2.1 "aay" [nested] (by simpa using plain)
  · exact ((encodes "aay" nested).tooDeep_iff 1 2 1).2 ⟨rfl, arg, unlimited.1, rfl, by decide⟩
  · refine (encodesAll "yaay" [.atom (.byte 7), nested] 2 1).2 ⟨rfl, ["y", "aay"], rfl, rfl,
      [("y", .atom (.byte 7))], "aay", nested, [], rfl, ?_, arg, unlimited.1, rfl, by decide⟩
    intro slot member
    cases List.mem_singleton.1 member
    exact ⟨.scalar (.byte 7), rfl, by decide⟩

end MessageArgs
