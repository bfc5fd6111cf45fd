import MessageArgs.ObjectPath

/-!
# Object paths by their segments

The check of an object path reads it once, character by character. `isValid_iff` says what it finds
out: the path is `/` alone, or segments that are not empty, each after a `/`.
-/

namespace MessageArgs

namespace ObjectPath

/-- A segment of a path. -/
def IsSegment (segment : List Char) : Prop :=
  segment ≠ [] ∧ ∀ c ∈ segment, isSegmentChar c = true

/-- The rest of a path: what is left of a segment, which is not empty unless the segment has begun
already, and further segments, each after a `/`. -/
def IsRest (started : Bool) (text : List Char) : Prop :=
  ∃ (first : List Char) (others : List (List Char)),
    text = first ++ others.flatMap ('/' :: ·) ∧ (started = false → first ≠ []) ∧
      (∀ c ∈ first, isSegmentChar c = true) ∧ ∀ segment ∈ others, IsSegment segment

theorem isRest_nil_iff {started : Bool} : IsRest started [] ↔ started = true := by
  constructor
  · intro h
    obtain ⟨first, others, empty, begun, -⟩ := h
    rw [List.nil_eq, List.append_eq_nil_iff] at empty
    cases started with
    | true => rfl
    | false => exact absurd empty.1 (begun rfl)
  · intro h
    subst h
    exact ⟨[], [], by simp⟩

/-- A `/` ends a segment, so another one follows. -/
theorem isRest_slash_iff {started : Bool} {rest : List Char} :
    IsRest started ('/' :: rest) ↔ started = true ∧ IsRest false rest := by
  constructor
  · intro h
    obtain ⟨first, others, spelled, begun, chars, segments⟩ := h
    have ended : first = [] := by
      cases first with
      | nil => rfl
      | cons c first =>
        rw [List.cons_append, List.cons.injEq] at spelled
        have letter := chars c List.mem_cons_self
        rw [← spelled.1] at letter
        exact absurd letter (by decide)
    subst ended
    have running : started = true := by
      cases started with
      | true => rfl
      | false => exact absurd rfl (begun rfl)
    cases others with
    | nil => simp at spelled
    | cons next others =>
      rw [List.nil_append, List.flatMap_cons, List.cons_append, List.cons.injEq] at spelled
      rw [List.forall_mem_cons] at segments
      have whole : IsSegment next := segments.1
      exact ⟨running, next, others, spelled.2, fun _ => whole.1, whole.2, segments.2⟩
  · intro h
    obtain ⟨running, first, others, spelled, begun, chars, segments⟩ := h
    have whole : IsSegment first := ⟨begun rfl, chars⟩
    refine ⟨[], first :: others, ?_, ?_, by simp, List.forall_mem_cons.2 ⟨whole, segments⟩⟩
    · rw [spelled, List.nil_append, List.flatMap_cons, List.cons_append]
    · simp [running]

/-- Any other character belongs to the segment that is being read. -/
theorem isRest_char_iff {started : Bool} {c : Char} {rest : List Char} (other : c ≠ '/') :
    IsRest started (c :: rest) ↔ isSegmentChar c = true ∧ IsRest true rest := by
  constructor
  · intro h
    obtain ⟨first, others, spelled, -, chars, segments⟩ := h
    cases first with
    | cons c' first =>
      rw [List.cons_append, List.cons.injEq] at spelled
      rw [List.forall_mem_cons] at chars
      exact ⟨spelled.1 ▸ chars.1, first, others, spelled.2, by simp, chars.2, segments⟩
    | nil =>
      cases others with
      | nil => simp at spelled
      | cons next others =>
        rw [List.nil_append, List.flatMap_cons, List.cons_append, List.cons.injEq] at spelled
        exact absurd spelled.1 other
  · intro h
    obtain ⟨letter, first, others, spelled, -, chars, segments⟩ := h
    refine ⟨c :: first, others, ?_, by simp, List.forall_mem_cons.2 ⟨letter, chars⟩, segments⟩
    rw [spelled, List.cons_append]

/-- The check accepts the rests of paths. -/
theorem isSegments_iff {started : Bool} {text : List Char} :
    isSegments started text = true ↔ IsRest started text := by
  induction text generalizing started with
  | nil => rw [isSegments, isRest_nil_iff]
  | cons c rest ih =>
    rw [isSegments]
    split
    · rename_i slash
      rw [slash, isRest_slash_iff, Bool.and_eq_true, ih]
    · rename_i other
      rw [isRest_char_iff other, Bool.and_eq_true, ih]

/-- A path is `/`, or segments that are not empty, each after a `/`. -/
theorem isValid_iff {path : String} :
    isValid path = true ↔ path = "/" ∨ ∃ segments : List (List Char), segments ≠ [] ∧
      path.toList = segments.flatMap ('/' :: ·) ∧ ∀ segment ∈ segments, IsSegment segment := by
  have root : "/".toList = ['/'] := rfl
  rw [isValid, ← String.toList_inj, root]
  cases path.toList with
  | nil =>
    constructor
    · intro h
      simp at h
    · intro h
      rcases h with h | ⟨segments, nonempty, empty, -⟩
      · simp at h
      · obtain ⟨first, others, rfl⟩ := List.exists_cons_of_ne_nil nonempty
        simp at empty
  | cons c rest =>
    rw [Bool.and_eq_true, Bool.or_eq_true, decide_eq_true_eq, List.isEmpty_iff, isSegments_iff]
    constructor
    · intro h
      obtain ⟨rfl, rfl | ⟨first, others, rfl, begun, chars, segments⟩⟩ := h
      · exact Or.inl rfl
      · have whole : IsSegment first := ⟨begun rfl, chars⟩
        exact Or.inr ⟨first :: others, by simp, rfl, List.forall_mem_cons.2 ⟨whole, segments⟩⟩
    · intro h
      rcases h with same | ⟨segments, nonempty, spelled, good⟩
      · rw [List.cons.injEq] at same
        exact ⟨same.1, Or.inl same.2⟩
      · obtain ⟨first, others, rfl⟩ := List.exists_cons_of_ne_nil nonempty
        rw [List.flatMap_cons, List.cons_append, List.cons.injEq] at spelled
        rw [List.forall_mem_cons] at good
        have whole : IsSegment first := good.1
        exact ⟨spelled.1, Or.inr ⟨first, others, spelled.2, fun _ => whole.1, whole.2, good.2⟩⟩

end ObjectPath

end MessageArgs
