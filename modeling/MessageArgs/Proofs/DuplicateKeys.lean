import MessageArgs.Config
import MessageArgs.Proofs.Outcome

/-!
# Duplicate keys

What remains of items that are tagged with the fingerprints of their keys. `collapse` is the
reference: each fingerprint keeps its first place and its last item. `apply_iff` says that this is
what both policies give, except that one of them refuses fingerprints that come twice.

What remains under a fingerprint is found by looking for the last item that has it
(`find?_collapse`). `collapse` treats items as black boxes, so it keeps items together that belong
together (`collapse_forall₂`).
-/

namespace MessageArgs.DuplicateKeys

variable {α β : Type}

/-! ## The reference -/

/-- The last item with a fingerprint, or else a given one. -/
def lastOf (name : String) (item : α) : List (String × α) → α
  | [] => item
  | (name', item') :: rest => if name' = name then lastOf name item' rest else lastOf name item rest

/-- Each fingerprint once, in its first place and with its last item. -/
def collapse : List (String × α) → List (String × α)
  | [] => []
  | (name, item) :: rest =>
    (name, lastOf name item rest) :: (collapse rest).filter fun other => other.1 ≠ name

theorem lastOf_mem (name : String) (item : α) (rest : List (String × α)) :
    (name, lastOf name item rest) ∈ (name, item) :: rest := by
  induction rest generalizing item with
  | nil => simp [lastOf]
  | cons other rest ih =>
    obtain ⟨name', item'⟩ := other
    rw [lastOf]
    split
    · rename_i same
      subst same
      exact List.mem_cons_of_mem _ (ih item')
    · rcases List.mem_cons.1 (ih item) with first | later
      · rw [first]
        exact List.mem_cons_self
      · exact List.mem_cons_of_mem _ (List.mem_cons_of_mem _ later)

theorem lastOf_of_notMem {name : String} (item : α) {rest : List (String × α)}
    (h : name ∉ rest.map Prod.fst) : lastOf name item rest = item := by
  induction rest with
  | nil => rfl
  | cons other rest ih =>
    rw [List.map_cons, List.mem_cons, not_or] at h
    rw [lastOf, if_neg (Ne.symm h.1), ih h.2]

/-- What remains was there. -/
theorem mem_of_mem_collapse {keyed : List (String × α)} {item : String × α}
    (h : item ∈ collapse keyed) : item ∈ keyed := by
  induction keyed with
  | nil => exact h
  | cons first rest ih =>
    rw [collapse, List.mem_cons] at h
    rcases h with rfl | later
    · exact lastOf_mem first.1 first.2 rest
    · exact List.mem_cons_of_mem _ (ih (List.mem_filter.1 later).1)

theorem nodup_collapse (keyed : List (String × α)) : ((collapse keyed).map Prod.fst).Nodup := by
  induction keyed with
  | nil => exact List.nodup_nil
  | cons first rest ih =>
    rw [collapse, List.map_cons, List.nodup_cons]
    constructor
    · simp
    · exact ih.sublist (List.filter_sublist.map Prod.fst)

/-- Without duplicates everything remains. -/
theorem collapse_of_nodup {keyed : List (String × α)} (h : (keyed.map Prod.fst).Nodup) :
    collapse keyed = keyed := by
  induction keyed with
  | nil => rfl
  | cons first rest ih =>
    rw [List.map_cons, List.nodup_cons] at h
    have others : rest.filter (fun other => other.1 ≠ first.1) = rest := by
      rw [List.filter_eq_self]
      intro other member
      have : other.1 ∈ rest.map Prod.fst := List.mem_map_of_mem member
      simp only [ne_eq, decide_eq_true_eq]
      exact fun same => h.1 (same ▸ this)
    rw [collapse, lastOf_of_notMem first.2 h.1, ih h.2, others]

theorem find?_lastOf (name : String) (item : α) (rest : List (String × α)) :
    some (name, lastOf name item rest) =
      (rest.reverse.find? fun other => other.1 = name).or (some (name, item)) := by
  induction rest generalizing item with
  | nil => rfl
  | cons other rest ih =>
    obtain ⟨name', item'⟩ := other
    rw [lastOf, List.reverse_cons, List.find?_append, List.find?_singleton, Option.or_assoc]
    by_cases same : name' = name
    · subst same
      rw [if_pos rfl, ih]
      simp
    · rw [if_neg same, ih]
      simp [same]

/-- What remains under a fingerprint is the last item that has it. -/
theorem find?_collapse (name : String) (keyed : List (String × α)) :
    (collapse keyed).find? (fun kept => kept.1 = name) =
      keyed.reverse.find? fun item => item.1 = name := by
  induction keyed with
  | nil => rfl
  | cons first rest ih =>
    obtain ⟨name', item⟩ := first
    rw [collapse, List.reverse_cons, List.find?_append, List.find?_singleton]
    by_cases same : name' = name
    · subst same
      rw [List.find?_cons_of_pos (by simp), find?_lastOf]
      simp
    · rw [List.find?_cons_of_neg (by simpa using same), if_neg (by simpa using same),
        Option.or_none, ← ih, List.find?_filter]
      congr 1
      funext kept
      by_cases here : kept.1 = name
      · simp [here, Ne.symm same]
      · simp [here]

theorem lastOf_forall₂ {R : String × α → String × β → Prop} {name : String}
    {rest : List (String × α)} {rest' : List (String × β)} (names : ∀ {a b}, R a b → a.1 = b.1)
    (related : List.Forall₂ R rest rest') {item : α} {item' : β}
    (h : R (name, item) (name, item')) :
    R (name, lastOf name item rest) (name, lastOf name item' rest') := by
  induction related generalizing item item' with
  | nil => exact h
  | @cons a b _ _ first _ ih =>
    obtain ⟨name', other⟩ := a
    obtain ⟨_, other'⟩ := b
    cases names first
    rw [lastOf, lastOf]
    split
    · rename_i same
      exact ih (same ▸ first)
    · exact ih h

/-- What remains of related items is related, if related items have the same fingerprint. -/
theorem collapse_forall₂ {R : String × α → String × β → Prop} {keyed : List (String × α)}
    {keyed' : List (String × β)} (names : ∀ {a b}, R a b → a.1 = b.1)
    (related : List.Forall₂ R keyed keyed') :
    List.Forall₂ R (collapse keyed) (collapse keyed') := by
  induction related with
  | nil => exact .nil
  | @cons a b _ _ first others ih =>
    obtain ⟨name, item⟩ := a
    obtain ⟨_, item'⟩ := b
    cases names first
    rw [collapse, collapse]
    refine .cons (lastOf_forall₂ names others first) (List.rel_filter ?_ ih)
    intro a b both
    simp [names both]

/-! ## The policies -/

@[simp]
theorem any_iff {kept : List (String × α)} {name : String} :
    (kept.any fun old => old.1 = name) = true ↔ name ∈ kept.map Prod.fst := by
  rw [List.any_eq_true, List.mem_map]
  simp only [decide_eq_true_eq]

theorem map_fst_overwrite (name : String) (item : α) (kept : List (String × α)) :
    (overwrite name item kept).map Prod.fst = kept.map Prod.fst := by
  induction kept with
  | nil => rfl
  | cons old kept ih =>
    rw [overwrite]
    split
    · rfl
    · rw [List.map_cons, ih, List.map_cons]

/-- An item changes nothing about what is kept under other fingerprints. -/
theorem map_lastOf_of_notMem {name : String} (item : α) {kept : List (String × α)}
    (rest : List (String × α)) (unknown : name ∉ kept.map Prod.fst) :
    (kept.map fun old => (old.1, lastOf old.1 old.2 ((name, item) :: rest))) =
      kept.map fun old => (old.1, lastOf old.1 old.2 rest) := by
  refine List.map_congr_left fun old member => ?_
  have different : name ≠ old.1 := by
    intro same
    rw [same] at unknown
    exact unknown (List.mem_map_of_mem member)
  rw [lastOf, if_neg different]

/-- Overwriting an item is to say that there is a later one. -/
theorem overwrite_map_lastOf {name : String} {item : α} {kept rest : List (String × α)}
    (h : (kept.map Prod.fst).Nodup) :
    (overwrite name item kept).map (fun old => (old.1, lastOf old.1 old.2 rest)) =
      kept.map fun old => (old.1, lastOf old.1 old.2 ((name, item) :: rest)) := by
  induction kept with
  | nil => rfl
  | cons old kept ih =>
    rw [List.map_cons, List.nodup_cons] at h
    rw [overwrite]
    split
    · rename_i same
      have unknown : name ∉ kept.map Prod.fst := same ▸ h.1
      rw [List.map_cons, List.map_cons, lastOf, if_pos same.symm,
        map_lastOf_of_notMem item _ unknown]
    · rename_i different
      rw [List.map_cons, List.map_cons, ih h.2, lastOf, if_neg (Ne.symm different)]

theorem nodup_append_singleton {kept : List (String × α)} {keyed : String × α}
    (h : (kept.map Prod.fst).Nodup) (fresh : keyed.1 ∉ kept.map Prod.fst) :
    ((kept ++ [keyed]).map Prod.fst).Nodup := by
  rw [List.map_append, List.nodup_append]
  refine ⟨h, by simp, ?_⟩
  rintro name member _ last rfl
  rw [List.map_singleton, List.mem_singleton] at last
  exact fresh (last ▸ member)

/-- What remains under fingerprints that no kept item has. -/
def fresh (kept keyed : List (String × α)) : List (String × α) :=
  (collapse keyed).filter fun other => other.1 ∉ kept.map Prod.fst

theorem fresh_nil (keyed : List (String × α)) : fresh [] keyed = collapse keyed := by
  simp [fresh]

theorem fresh_cons_of_mem {name : String} {item : α} {kept rest : List (String × α)}
    (known : name ∈ kept.map Prod.fst) : fresh kept ((name, item) :: rest) = fresh kept rest := by
  rw [fresh, fresh, collapse, List.filter_cons_of_neg (by simpa using known), List.filter_filter]
  refine List.filter_congr fun other _ => ?_
  by_cases old : other.1 ∈ kept.map Prod.fst
  · simp [old]
  · have different : other.1 ≠ name := by
      intro same
      rw [same] at old
      exact old known
    simp [old, different]

theorem fresh_cons_of_notMem {name : String} {item : α} {kept rest : List (String × α)}
    (unknown : name ∉ kept.map Prod.fst) : fresh kept ((name, item) :: rest) =
      (name, lastOf name item rest) :: fresh (kept ++ [(name, item)]) rest := by
  rw [fresh, fresh, collapse, List.filter_cons_of_pos (by simpa using unknown), List.filter_filter]
  congr 1
  refine List.filter_congr fun other _ => ?_
  simp only [List.map_append, List.map_singleton, List.mem_append, List.mem_singleton, not_or,
    Bool.decide_and, ne_eq]

/-- The last write wins: what is kept already gets its last items and new fingerprints follow. -/
theorem foldlM_lastWriteWins (keyed kept : List (String × α)) (h : (kept.map Prod.fst).Nodup) :
    keyed.foldlM (place .lastWriteWins) kept =
      .ok (kept.map (fun old => (old.1, lastOf old.1 old.2 keyed)) ++ fresh kept keyed) := by
  induction keyed generalizing kept with
  | nil => simp [lastOf, fresh, collapse, pure, Except.pure]
  | cons first rest ih =>
    obtain ⟨name, item⟩ := first
    rw [List.foldlM_cons, place]
    by_cases known : name ∈ kept.map Prod.fst
    · rw [if_pos (any_iff.2 known)]
      show rest.foldlM (place .lastWriteWins) (overwrite name item kept) = _
      have sameNames := map_fst_overwrite name item kept
      have distinct : ((overwrite name item kept).map Prod.fst).Nodup := by rwa [sameNames]
      rw [ih _ distinct, overwrite_map_lastOf h, fresh_cons_of_mem known, fresh, fresh, sameNames]
    · rw [if_neg (mt any_iff.1 known)]
      show rest.foldlM (place .lastWriteWins) (kept ++ [(name, item)]) = _
      rw [ih _ (nodup_append_singleton h known), fresh_cons_of_notMem known,
        map_lastOf_of_notMem item rest known, List.map_append, List.append_assoc,
        List.map_singleton, List.singleton_append]

/-- A fingerprint that is known already cannot come again among distinct ones. -/
theorem not_nodup_of_known {first : String × α} {kept : List (String × α)}
    (known : first.1 ∈ kept.map Prod.fst) (rest : List (String × α)) :
    ¬ ((kept ++ first :: rest).map Prod.fst).Nodup := by
  intro distinct
  rw [List.map_append, List.nodup_append] at distinct
  exact distinct.2.2 first.1 known first.1 (by simp) rfl

/-- Under the strict policy all items are kept, unless a fingerprint comes twice. -/
theorem foldlM_reject_iff {keyed kept result : List (String × α)}
    (h : (kept.map Prod.fst).Nodup) : keyed.foldlM (place .reject) kept = .ok result ↔
      ((kept ++ keyed).map Prod.fst).Nodup ∧ result = kept ++ keyed := by
  induction keyed generalizing kept with
  | nil => simp [pure, Except.pure, eq_comm, h]
  | cons first rest ih =>
    rw [List.foldlM_cons, place]
    by_cases known : first.1 ∈ kept.map Prod.fst
    · rw [if_pos (any_iff.2 known)]
      constructor
      · intro impossible
        cases impossible
      · intro h'
        exact absurd h'.1 (not_nodup_of_known known rest)
    · rw [if_neg (mt any_iff.1 known)]
      show rest.foldlM (place .reject) (kept ++ [first]) = .ok result ↔ _
      rw [ih (nodup_append_singleton h known), List.append_assoc, List.singleton_append]

/-- The strict policy refuses the first fingerprint that has come before. -/
theorem foldlM_reject_error_iff {keyed kept : List (String × α)} {error : CodecError}
    (h : (kept.map Prod.fst).Nodup) : keyed.foldlM (place .reject) kept = .error error ↔
      ∃ before repeated after, keyed = before ++ repeated :: after ∧
        ((kept ++ before).map Prod.fst).Nodup ∧ repeated.1 ∈ (kept ++ before).map Prod.fst ∧
        error = .duplicateKey repeated.1 := by
  induction keyed generalizing kept with
  | nil => simp [pure, Except.pure]
  | cons first rest ih =>
    rw [List.foldlM_cons, place]
    by_cases known : first.1 ∈ kept.map Prod.fst
    · rw [if_pos (any_iff.2 known)]
      constructor
      · intro refused
        cases refused
        exact ⟨[], first, rest, rfl, by rwa [List.append_nil], by rwa [List.append_nil], rfl⟩
      · rintro ⟨before, repeated, after, split, distinct, _, rfl⟩
        cases before with
        | nil =>
          cases split
          rfl
        | cons other before =>
          cases split
          exact absurd distinct (not_nodup_of_known known before)
    · rw [if_neg (mt any_iff.1 known)]
      show rest.foldlM (place .reject) (kept ++ [first]) = .error error ↔ _
      rw [ih (nodup_append_singleton h known)]
      constructor
      · rintro ⟨before, repeated, after, rfl, found⟩
        rw [List.append_assoc, List.singleton_append] at found
        exact ⟨first :: before, repeated, after, rfl, found⟩
      · rintro ⟨before, repeated, after, split, distinct, again, same⟩
        cases before with
        | nil =>
          cases split
          rw [List.append_nil] at again
          exact absurd again known
        | cons other before =>
          cases split
          refine ⟨before, repeated, after, rfl, ?_⟩
          rw [List.append_assoc, List.singleton_append]
          exact ⟨distinct, again, same⟩

theorem reject_error_iff {keyed : List (String × α)} {error : CodecError} :
    reject.apply keyed = .error error ↔
      ∃ before repeated after, keyed = before ++ repeated :: after ∧
        (before.map Prod.fst).Nodup ∧ repeated.1 ∈ before.map Prod.fst ∧
        error = .duplicateKey repeated.1 :=
  map_error_iff.trans (foldlM_reject_error_iff List.nodup_nil)

/-- What a policy gives. -/
theorem apply_iff {policy : DuplicateKeys} {keyed : List (String × α)} {items : List α} :
    policy.apply keyed = .ok items ↔ (policy = .reject → (keyed.map Prod.fst).Nodup) ∧
      items = (collapse keyed).map Prod.snd := by
  rw [apply, map_ok_iff]
  cases policy with
  | reject =>
    have strict : ∀ {result}, keyed.foldlM (place .reject) [] = .ok result ↔
        (keyed.map Prod.fst).Nodup ∧ result = keyed := foldlM_reject_iff List.nodup_nil
    simp only [strict, true_implies]
    constructor
    · intro h
      obtain ⟨_, ⟨distinct, rfl⟩, rfl⟩ := h
      exact ⟨distinct, by rw [collapse_of_nodup distinct]⟩
    · intro h
      obtain ⟨distinct, rfl⟩ := h
      exact ⟨keyed, ⟨distinct, rfl⟩, by rw [collapse_of_nodup distinct]⟩
  | lastWriteWins =>
    rw [foldlM_lastWriteWins keyed [] List.nodup_nil, fresh_nil]
    simp [eq_comm]

theorem place_error {policy : DuplicateKeys} {kept : List (String × α)} {keyed : String × α}
    {error : CodecError} (h : place policy kept keyed = .error error) :
    error = .duplicateKey keyed.1 := by
  cases policy <;> rw [place] at h <;> split at h <;> cases h
  rfl

/-- A policy refuses nothing but keys. -/
theorem apply_error {policy : DuplicateKeys} {keyed : List (String × α)} {error : CodecError}
    (h : policy.apply keyed = .error error) : ∃ name, error = .duplicateKey name := by
  have folded : ∀ kept, keyed.foldlM (place policy) kept = .error error →
      ∃ name, error = .duplicateKey name := by
    clear h
    induction keyed with
    | nil => exact nofun
    | cons first rest ih =>
      intro kept failed
      rw [List.foldlM_cons] at failed
      cases placed : place policy kept first with
      | ok next =>
        rw [placed] at failed
        exact ih next failed
      | error refusal =>
        rw [placed] at failed
        cases failed
        exact ⟨first.1, place_error placed⟩
  rw [apply] at h
  cases found : keyed.foldlM (place policy) [] with
  | ok kept =>
    rw [found] at h
    cases h
  | error refusal =>
    rw [found] at h
    cases h
    exact folded [] found

/-- Without duplicates the policies do not matter. -/
theorem apply_of_nodup {policy : DuplicateKeys} {keyed : List (String × α)}
    (h : (keyed.map Prod.fst).Nodup) : policy.apply keyed = .ok (keyed.map Prod.snd) :=
  apply_iff.2 ⟨fun _ => h, by rw [collapse_of_nodup h]⟩

end MessageArgs.DuplicateKeys
