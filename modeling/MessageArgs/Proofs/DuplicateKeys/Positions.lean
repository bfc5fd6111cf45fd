import Mathlib.Data.List.Nodup
import Std.Data.HashMap.Lemmas
import MessageArgs.Proofs.DuplicateKeys

/-!
# Duplicate keys by positions

The items of a dictionary as one loop takes them in: it stores them in an array that grows, and
keeps the position of each fingerprint in a hash map. A fingerprint that is in the map already is
refused, or its item is overwritten at the stored position. A position outside the array stops the
loop.

`Tracks` links the map and the array to the list of what is kept. Each round keeps this link
(`put_follows`), so no round stops and the loop gives what the policy gives (`loop_eq`).

What that is, is said by `apply_keeps_each_key`: the names of what remains are the distinct
fingerprints in the order in which they come first (`map_fst_collapse`), each with its last item.
-/

namespace MessageArgs.DuplicateKeys

variable {α : Type} {policy : DuplicateKeys}

/-! ## The loop -/

/-- Items in an array, and the position of each fingerprint. -/
structure Positions (α : Type) where
  seen : Std.HashMap String Nat
  items : Array α

/-- A computation that may refuse a fingerprint, and that stops at a position outside an array. -/
abbrev Looping := ExceptT CodecError Option

namespace Positions

/-- Nothing has been taken in. -/
def initial : Positions α := ⟨∅, #[]⟩

/-- Stores an item at a position of the array. -/
def overwriteAt (state : Positions α) (index : Nat) (item : α) : Looping (Positions α) :=
  if index < state.items.size then
    pure { state with items := state.items.setIfInBounds index item }
  else ExceptT.mk none

/-- Takes in one more item. -/
def put (policy : DuplicateKeys) (state : Positions α) (keyed : String × α) :
    Looping (Positions α) :=
  match state.seen[keyed.1]?, policy with
  | some _, reject => throw (.duplicateKey keyed.1)
  | some index, lastWriteWins => state.overwriteAt index keyed.2
  | none, _ => pure ⟨state.seen.insert keyed.1 state.items.size, state.items.push keyed.2⟩

/-- Takes in some items and gives back what remains. -/
def loop (policy : DuplicateKeys) (keyed : List (String × α)) :
    Option (Except CodecError (List α)) :=
  (keyed.foldlM (put policy) initial).run.map fun outcome =>
    outcome.map fun state => state.items.toList

/-- The array holds the items that are kept, and the map says where each fingerprint is. -/
structure Tracks (state : Positions α) (kept : List (String × α)) : Prop where
  items : state.items.toList = kept.map Prod.snd
  seen (name : String) (index : Nat) :
    state.seen[name]? = some index ↔ (kept.map Prod.fst)[index]? = some name

/-- A round comes to the same as placing an item in a list. -/
def Follows : Except CodecError (Positions α) → Except CodecError (List (String × α)) → Prop
  | .ok state, .ok kept => Tracks state kept
  | .error refusal, .error error => refusal = error
  | _, _ => False

variable {state : Positions α} {kept : List (String × α)} {name : String} {index : Nat}

theorem tracks_initial : Tracks (initial : Positions α) [] where
  items := rfl
  seen name index := by simp [initial]

theorem Tracks.size_eq (h : Tracks state kept) : state.items.size = kept.length := by
  rw [← Array.length_toList, h.items, List.length_map]

theorem Tracks.mem_iff (h : Tracks state kept) :
    name ∈ kept.map Prod.fst ↔ ∃ index, state.seen[name]? = some index := by
  simp only [h.seen, List.mem_iff_getElem?]

/-- No fingerprint is kept twice, since the map has one position for it. -/
theorem Tracks.nodup (h : Tracks state kept) : (kept.map Prod.fst).Nodup := by
  rw [List.nodup_iff_getElem?_ne_getElem?]
  intro first later less inside same
  have found := List.getElem?_eq_getElem inside
  have here := (h.seen _ later).2 found
  have there := (h.seen _ first).2 (same.trans found)
  rw [here, Option.some.injEq] at there
  omega

theorem getElem?_concat_iff {names : List String} {other : String} :
    (names ++ [name])[index]? = some other ↔
      names[index]? = some other ∨ index = names.length ∧ name = other := by
  rcases Nat.lt_trichotomy index names.length with before | rfl | behind
  · simp [List.getElem?_append_left before, Nat.ne_of_lt before]
  · simp
  · have outside : (names ++ [name]).length ≤ index := by
      rw [List.length_append, List.length_singleton]
      omega
    simp [List.getElem?_eq_none outside, Nat.ne_of_gt behind, Nat.le_of_lt behind]

/-- Overwriting the item of a fingerprint is overwriting the one at its position. -/
theorem map_snd_overwrite (item : α) (distinct : (kept.map Prod.fst).Nodup)
    (found : (kept.map Prod.fst)[index]? = some name) :
    (overwrite name item kept).map Prod.snd = (kept.map Prod.snd).set index item := by
  induction kept generalizing index with
  | nil => simp at found
  | cons old kept ih =>
    rw [List.map_cons, List.nodup_cons] at distinct
    rw [overwrite]
    cases index with
    | zero =>
      rw [List.map_cons, List.getElem?_cons_zero, Option.some.injEq] at found
      rw [if_pos found]
      rfl
    | succ index =>
      rw [List.map_cons, List.getElem?_cons_succ] at found
      have later : name ∈ kept.map Prod.fst := List.mem_of_getElem? found
      have different : old.1 ≠ name := fun same => distinct.1 (same ▸ later)
      rw [if_neg different, List.map_cons, ih distinct.2 found, List.map_cons, List.set_cons_succ]

/-- A known fingerprint keeps its position. -/
theorem Tracks.overwriteAt (h : Tracks state kept) (item : α)
    (known : state.seen[name]? = some index) :
    ∃ next, state.overwriteAt index item = ExceptT.mk (some (.ok next)) ∧
      Tracks next (overwrite name item kept) := by
  have found := (h.seen name index).1 known
  have inside : index < state.items.size := by
    rw [h.size_eq, ← List.length_map Prod.fst]
    exact (List.getElem?_eq_some_iff.1 found).1
  refine ⟨{ state with items := state.items.setIfInBounds index item }, if_pos inside, ?_, ?_⟩
  · rw [Array.toList_setIfInBounds, h.items, map_snd_overwrite item h.nodup found]
  · rw [map_fst_overwrite]
    exact h.seen

/-- A new fingerprint gets the next position. -/
theorem Tracks.push (h : Tracks state kept) (item : α) (unknown : state.seen[name]? = none) :
    Tracks ⟨state.seen.insert name state.items.size, state.items.push item⟩
      (kept ++ [(name, item)]) where
  items := by
    rw [Array.toList_push, h.items, List.map_append]
    rfl
  seen other index := by
    rw [Std.HashMap.getElem?_insert, List.map_append, List.map_singleton,
      getElem?_concat_iff, ← h.seen, List.length_map, ← h.size_eq]
    by_cases same : name = other
    · subst same
      simp [unknown, eq_comm]
    · simp [same]

/-- No round stops, and each keeps the map and the array in step with the list. -/
theorem put_follows (policy : DuplicateKeys) (h : Tracks state kept) (keyed : String × α) :
    ∃ outcome, put policy state keyed = ExceptT.mk (some outcome) ∧
      Follows outcome (place policy kept keyed) := by
  unfold put place
  cases known : state.seen[keyed.1]? with
  | none =>
    have unknown : keyed.1 ∉ kept.map Prod.fst := by
      simp [h.mem_iff, known]
    rw [if_neg (mt any_iff.1 unknown)]
    exact ⟨_, rfl, h.push keyed.2 known⟩
  | some index =>
    have member : keyed.1 ∈ kept.map Prod.fst := h.mem_iff.2 ⟨index, known⟩
    rw [if_pos (any_iff.2 member)]
    cases policy with
    | reject => exact ⟨_, rfl, rfl⟩
    | lastWriteWins =>
      obtain ⟨next, stored, tracks⟩ := h.overwriteAt keyed.2 known
      exact ⟨.ok next, stored, tracks⟩

/-- Nor does a run of rounds. -/
theorem foldlM_follows (policy : DuplicateKeys) (h : Tracks state kept)
    (keyed : List (String × α)) :
    ∃ outcome, keyed.foldlM (put policy) state = ExceptT.mk (some outcome) ∧
      Follows outcome (keyed.foldlM (place policy) kept) := by
  induction keyed generalizing state kept with
  | nil => exact ⟨.ok state, rfl, h⟩
  | cons first rest ih =>
    rw [List.foldlM_cons, List.foldlM_cons]
    obtain ⟨outcome, made, follows⟩ := put_follows policy h first
    rw [made]
    cases outcome with
    | error refusal =>
      cases placed : place policy kept first with
      | ok next =>
        rw [placed] at follows
        cases follows
      | error error =>
        rw [placed] at follows
        exact ⟨.error refusal, rfl, follows⟩
    | ok next =>
      cases placed : place policy kept first with
      | ok kept' =>
        rw [placed] at follows
        exact ih follows
      | error error =>
        rw [placed] at follows
        cases follows

/-- The loop over positions does not stop, and gives what the policy gives. -/
theorem loop_eq (policy : DuplicateKeys) (keyed : List (String × α)) :
    loop policy keyed = some (policy.apply keyed) := by
  obtain ⟨outcome, made, follows⟩ := foldlM_follows policy tracks_initial keyed
  rw [loop, made, apply]
  cases placed : keyed.foldlM (place policy) [] with
  | ok kept =>
    rw [placed] at follows
    cases outcome with
    | ok state =>
      show some (Except.ok state.items.toList) = _
      rw [follows.items]
      rfl
    | error refusal => cases follows
  | error error =>
    rw [placed] at follows
    cases outcome with
    | ok state => cases follows
    | error refusal =>
      show some (Except.error refusal) = _
      rw [show refusal = error from follows]
      rfl

end Positions

/-! ## What remains -/

/-- Leaving out names and leaving out repetitions can be done in either order. A name that is left
out does not have to be left out again as a repetition. -/
theorem eraseDups_filter (p : String → Bool) (names : List String) :
    (names.filter p).eraseDups = names.eraseDups.filter p := by
  match names with
  | [] => rfl
  | name :: rest =>
    rw [List.eraseDups_cons]
    by_cases wanted : p name = true
    · rw [List.filter_cons_of_pos wanted, List.filter_cons_of_pos wanted, List.eraseDups_cons,
        ← eraseDups_filter p (rest.filter _), List.filter_filter, List.filter_filter]
      simp only [Bool.and_comm]
    · rw [List.filter_cons_of_neg wanted, List.filter_cons_of_neg wanted,
        ← eraseDups_filter p (rest.filter _), List.filter_filter]
      refine congrArg List.eraseDups (List.filter_congr fun other _ => ?_)
      by_cases same : other = name
      · simp [same, wanted]
      · simp [same]
termination_by names.length
decreasing_by all_goals exact Nat.lt_succ_of_le (List.length_filter_le _ _)

/-- The names of what remains are the distinct fingerprints, in the order in which they come
first. -/
theorem map_fst_collapse (keyed : List (String × α)) :
    (collapse keyed).map Prod.fst = (keyed.map Prod.fst).eraseDups := by
  induction keyed with
  | nil => rfl
  | cons first rest ih =>
    rw [List.map_cons, List.eraseDups_cons, eraseDups_filter, ← ih, List.filter_map, collapse,
      List.map_cons]
    congr 2
    refine List.filter_congr fun other _ => ?_
    by_cases same : other.1 = first.1 <;> simp [same]

/-- What remains under each name is the last item that has it. -/
theorem find?_of_mem_collapse {keyed : List (String × α)} {kept : String × α}
    (member : kept ∈ collapse keyed) :
    (keyed.reverse.find? fun item => item.1 = kept.1) = some kept := by
  rw [← find?_collapse, List.find?_eq_some_iff_append]
  obtain ⟨before, after, split⟩ := List.append_of_mem member
  refine ⟨by simp, before, after, split, fun other earlier => ?_⟩
  have distinct := nodup_collapse keyed
  rw [split, List.map_append, List.nodup_append] at distinct
  have different := distinct.2.2 other.1 (List.mem_map_of_mem earlier) kept.1 (by simp)
  simpa using different

theorem zip_collapse (keyed : List (String × α)) :
    (keyed.map Prod.fst).eraseDups.zip ((collapse keyed).map Prod.snd) = collapse keyed := by
  rw [← map_fst_collapse]
  exact (List.zip_of_prod rfl rfl).symm

/-- Both policies keep one item for each fingerprint. The strict one returns all items in order if
the fingerprints are distinct, and else names the first one that has come before. The other one
always returns for each fingerprint, in the order in which they come first, the item that comes
last. What it returns is accepted by both policies and not changed any more. A loop that keeps
positions in a hash map comes to the same, without ever leaving its array. -/
theorem apply_keeps_each_key (keyed : List (String × α)) :
    (∀ items, reject.apply keyed = .ok items ↔
      (keyed.map Prod.fst).Nodup ∧ items = keyed.map Prod.snd) ∧
    (∀ error, reject.apply keyed = .error error ↔
      ∃ before repeated after, keyed = before ++ repeated :: after ∧
        (before.map Prod.fst).Nodup ∧ repeated.1 ∈ before.map Prod.fst ∧
        error = .duplicateKey repeated.1) ∧
    (∃ items, lastWriteWins.apply keyed = .ok items ∧
      List.Forall₂
        (fun name item => (keyed.reverse.find? fun other => other.1 = name) = some (name, item))
        (keyed.map Prod.fst).eraseDups items ∧
      lastWriteWins.apply ((keyed.map Prod.fst).eraseDups.zip items) = .ok items ∧
      reject.apply ((keyed.map Prod.fst).eraseDups.zip items) = .ok items) ∧
    ∀ policy, Positions.loop policy keyed = some (policy.apply keyed) := by
  refine ⟨fun items => ?_, fun error => reject_error_iff, ?_, fun policy =>
    Positions.loop_eq policy keyed⟩
  · rw [apply_iff]
    constructor
    · rintro ⟨distinct, rfl⟩
      exact ⟨distinct rfl, by rw [collapse_of_nodup (distinct rfl)]⟩
    · rintro ⟨distinct, rfl⟩
      exact ⟨fun _ => distinct, by rw [collapse_of_nodup distinct]⟩
  · refine ⟨(collapse keyed).map Prod.snd, apply_iff.2 ⟨nofun, rfl⟩, ?_, ?_⟩
    · rw [← map_fst_collapse, List.forall₂_map_left_iff, List.forall₂_map_right_iff,
        List.forall₂_same]
      exact fun kept member => find?_of_mem_collapse member
    · rw [zip_collapse]
      exact ⟨apply_of_nodup (nodup_collapse keyed), apply_of_nodup (nodup_collapse keyed)⟩

end MessageArgs.DuplicateKeys
