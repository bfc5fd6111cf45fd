import Mathlib.Data.List.Forall2

/-!
# Outcomes

When combinations of steps that may fail succeed, and with what: `bind_ok_iff` for one step after
the other, `mapM_ok_iff` for a step on each item of a list, `forall₂_ok_iff` for one whose success
and result are known. They fail where the first of their steps fails (`bind_error_iff`,
`mapM_error_iff`), and so for no other causes than their steps (`FailsFor`). The items of two lists
that are related one by one pass on what holds of them (`forall_right`), and go on together where
each of them can (`exists_forall₂`).
-/

namespace MessageArgs

variable {ε ε' α β : Type}

@[simp 900]
theorem bind_ok_iff {first : Except ε α} {next : α → Except ε β} {result : β} :
    (first >>= next) = .ok result ↔ ∃ value, first = .ok value ∧ next value = .ok result := by
  cases first <;> simp [bind, Except.bind]

/-- A check gives nothing to what is done after it. -/
@[simp]
theorem check_bind_ok_iff {check : Except ε Unit} {next : Unit → Except ε β} {result : β} :
    (check >>= next) = .ok result ↔ check = .ok () ∧ next () = .ok result := by
  cases check <;> simp [bind, Except.bind]

@[simp]
theorem map_ok_iff {step : Except ε α} {f : α → β} {result : β} :
    step.map f = .ok result ↔ ∃ value, step = .ok value ∧ f value = result := by
  cases step <;> simp [Except.map]

@[simp]
theorem fmap_ok_iff {step : Except ε α} {f : α → β} {result : β} :
    f <$> step = .ok result ↔ ∃ value, step = .ok value ∧ f value = result :=
  map_ok_iff

@[simp]
theorem mapError_ok_iff {step : Except ε α} {f : ε → ε'} {result : α} :
    step.mapError f = .ok result ↔ step = .ok result := by
  cases step <;> simp [Except.mapError]

@[simp]
theorem pure_ok_iff {value result : α} :
    (pure value : Except ε α) = .ok result ↔ value = result := by
  simp [pure, Except.pure]

theorem bind_error_iff {first : Except ε α} {next : α → Except ε β} {error : ε} :
    (first >>= next) = .error error ↔
      first = .error error ∨ ∃ value, first = .ok value ∧ next value = .error error := by
  cases first <;> simp [bind, Except.bind]

@[simp]
theorem map_error_iff {step : Except ε α} {f : α → β} {error : ε} :
    step.map f = .error error ↔ step = .error error := by
  cases step <;> simp [Except.map]

@[simp]
theorem mapError_error_iff {step : Except ε α} {f : ε → ε'} {error : ε'} :
    step.mapError f = .error error ↔ ∃ cause, step = .error cause ∧ f cause = error := by
  cases step <;> simp [Except.mapError]

/-- A step succeeds on a list when it succeeds on each item. -/
@[simp]
theorem mapM_ok_iff {step : α → Except ε β} {items : List α} {results : List β} :
    items.mapM step = .ok results ↔
      List.Forall₂ (fun item result => step item = .ok result) items results := by
  induction items generalizing results with
  | nil =>
    rw [List.mapM_nil, pure_ok_iff, List.forall₂_nil_left_iff]
    exact eq_comm
  | cons item items ih =>
    simp only [List.mapM_cons, bind_ok_iff, pure_ok_iff, ih, List.forall₂_cons_left_iff]
    constructor
    · intro h
      obtain ⟨first, done, rest, others, rfl⟩ := h
      exact ⟨first, rest, done, others, rfl⟩
    · intro h
      obtain ⟨first, rest, done, others, rfl⟩ := h
      exact ⟨first, done, rest, others, rfl⟩

theorem mapM_congr {step step' : α → Except ε β} {items : List α}
    (same : ∀ item ∈ items, step item = step' item) : items.mapM step = items.mapM step' := by
  induction items with
  | nil => rfl
  | cons item items ih =>
    rw [List.forall_mem_cons] at same
    rw [List.mapM_cons, List.mapM_cons, same.1, ih same.2]

/-- A step fails on a list where it first fails on an item. -/
theorem mapM_error_iff {step : α → Except ε β} {items : List α} {error : ε} :
    items.mapM step = .error error ↔ ∃ before item after, items = before ++ item :: after ∧
      (∀ other ∈ before, ∃ result, step other = .ok result) ∧ step item = .error error := by
  induction items with
  | nil => simp [pure, Except.pure]
  | cons item items ih =>
    rw [List.mapM_cons, bind_error_iff]
    constructor
    · rintro (first | ⟨result, first, later⟩)
      · exact ⟨[], item, items, rfl, nofun, first⟩
      · rcases bind_error_iff.1 later with rest | ⟨_, _, impossible⟩
        · obtain ⟨before, failed, after, rfl, passed, last⟩ := ih.1 rest
          exact ⟨item :: before, failed, after, rfl,
            List.forall_mem_cons.2 ⟨⟨result, first⟩, passed⟩, last⟩
        · cases impossible
    · rintro ⟨before, failed, after, split, passed, last⟩
      cases before with
      | nil =>
        cases split
        exact .inl last
      | cons first before =>
        cases split
        rw [List.forall_mem_cons] at passed
        obtain ⟨⟨result, first⟩, passed⟩ := passed
        have rest := ih.2 ⟨before, failed, after, rfl, passed, last⟩
        exact .inr ⟨result, first, bind_error_iff.2 (.inl rest)⟩

/-- A check succeeds on a list when it succeeds on each item. -/
@[simp]
theorem forM_ok_iff {check : α → Except ε Unit} {items : List α} :
    forM items check = .ok () ↔ ∀ item ∈ items, check item = .ok () := by
  induction items with
  | nil => simp
  | cons item items ih => simp [ih]

/-- A step that succeeds exactly on some items, and in one way, does so on lists of them. -/
theorem forall₂_ok_iff {step : α → Except ε β} {P : α → Prop} {f : α → β} {items : List α}
    {results : List β}
    (each : ∀ item ∈ items, ∀ result, step item = .ok result ↔ P item ∧ result = f item) :
    List.Forall₂ (fun item result => step item = .ok result) items results ↔
      (∀ item ∈ items, P item) ∧ results = items.map f := by
  induction items generalizing results with
  | nil => simp
  | cons item items ih =>
    rw [List.forall_mem_cons] at each
    simp only [List.forall₂_cons_left_iff, each.1, ih each.2, List.forall_mem_cons, List.map_cons]
    constructor
    · intro h
      obtain ⟨_, _, ⟨fits, rfl⟩, ⟨others, rfl⟩, rfl⟩ := h
      exact ⟨⟨fits, others⟩, rfl⟩
    · intro h
      obtain ⟨⟨fits, others⟩, rfl⟩ := h
      exact ⟨_, _, ⟨fits, rfl⟩, ⟨others, rfl⟩, rfl⟩

/-- Partners stay partners under a relation that follows for each of the items. -/
theorem forall₂_imp_mem {R S : α → β → Prop} {items : List α} {results : List β}
    (related : List.Forall₂ R items results)
    (each : ∀ item ∈ items, ∀ result, R item result → S item result) :
    List.Forall₂ S items results := by
  have listed := (List.forall₂_and_left items results).2 ⟨fun _ member => member, related⟩
  exact listed.imp fun item result both => each item both.1 result both.2

/-- What holds of all partners of the items of a list holds of the list of partners. -/
theorem forall_right {R : α → β → Prop} {P : β → Prop} {items : List α} {results : List β}
    (related : List.Forall₂ R items results)
    (each : ∀ item ∈ items, ∀ result, R item result → P result) : ∀ result ∈ results, P result := by
  induction related with
  | nil => simp
  | cons first _ ih =>
    rw [List.forall_mem_cons] at each ⊢
    exact ⟨each.1 _ first, ih each.2⟩

/-- Each item has a partner. -/
theorem exists_right {R : α → β → Prop} {items : List α} {results : List β}
    (related : List.Forall₂ R items results) {item : α} (member : item ∈ items) :
    ∃ result ∈ results, R item result := by
  induction related with
  | nil => cases member
  | cons first _ ih =>
    rcases List.mem_cons.1 member with rfl | later
    · exact ⟨_, List.mem_cons_self, first⟩
    · obtain ⟨result, present, partner⟩ := ih later
      exact ⟨result, List.mem_cons_of_mem _ present, partner⟩

/-- Some partner has a property exactly if some item has the one that corresponds to it. -/
theorem exists_right_iff {R : α → β → Prop} {P : α → Prop} {Q : β → Prop} {items : List α}
    {results : List β} (related : List.Forall₂ R items results)
    (each : ∀ item ∈ items, ∀ result, R item result → (Q result ↔ P item)) :
    (∃ result ∈ results, Q result) ↔ ∃ item ∈ items, P item := by
  induction related with
  | nil => simp
  | cons first _ ih =>
    rw [List.forall_mem_cons] at each
    rw [List.exists_mem_cons_iff, List.exists_mem_cons_iff, each.1 _ first, ih each.2]

/-- The partners of some items are related to what is made of the items. -/
theorem forall₂_map_right {γ : Type} {R : α → β → Prop} {S : β → γ → Prop} {f : α → γ}
    {items : List α} {results : List β} (related : List.Forall₂ R items results)
    (each : ∀ item ∈ items, ∀ result, R item result → S result (f item)) :
    List.Forall₂ S results (items.map f) := by
  induction related with
  | nil => exact .nil
  | cons first _ ih =>
    rw [List.forall_mem_cons] at each
    exact .cons (each.1 _ first) (ih each.2)

/-- The partners of partners of some items are related to the items in two steps. -/
theorem forall₂_comp {γ : Type} {R : α → β → Prop} {S : β → γ → Prop} {items : List α}
    {results : List β} {finals : List γ} (first : List.Forall₂ R items results)
    (next : List.Forall₂ S results finals) :
    List.Forall₂ (fun item final => ∃ result, R item result ∧ S result final) items finals := by
  induction first generalizing finals with
  | nil =>
    cases next
    exact .nil
  | cons related _ ih =>
    cases next with
    | cons related' others => exact .cons ⟨_, related, related'⟩ (ih others)

/-- Where all partners of items go on to something that is related to the items, the lists do. -/
theorem exists_forall₂ {γ : Type} {R : α → β → Prop} {S : β → γ → Prop} {T : α → γ → Prop}
    {items : List α} {results : List β} (related : List.Forall₂ R items results)
    (each : ∀ item ∈ items, ∀ result ∈ results, R item result → ∃ final, S result final ∧
      T item final) :
    ∃ finals, List.Forall₂ S results finals ∧ List.Forall₂ T items finals := by
  induction related with
  | nil => exact ⟨[], .nil, .nil⟩
  | @cons item result items results first _ ih =>
    obtain ⟨final, next, back⟩ := each item List.mem_cons_self result List.mem_cons_self first
    obtain ⟨finals, nexts, backs⟩ := ih fun item member result present =>
      each item (List.mem_cons_of_mem _ member) result (List.mem_cons_of_mem _ present)
    exact ⟨final :: finals, .cons next nexts, .cons back backs⟩

/-- The partners of the slots that two lists make up also make up slots with the first list. -/
theorem forall₂_zip {γ δ : Type} {R : α × β → γ → Prop} {S : α × γ → δ → Prop} {f : α × β → δ}
    {types : List α} {items : List β} {results : List γ} (arity : types.length = items.length)
    (related : List.Forall₂ R (types.zip items) results)
    (each : ∀ slot ∈ types.zip items, ∀ result, R slot result → S (slot.1, result) (f slot)) :
    types.length = results.length ∧
      List.Forall₂ S (types.zip results) ((types.zip items).map f) := by
  induction types generalizing items results with
  | nil =>
    cases related
    exact ⟨rfl, .nil⟩
  | cons type types ih =>
    cases items with
    | nil => cases arity
    | cons item items =>
      cases related with
      | cons first others =>
        rw [List.zip_cons_cons, List.forall_mem_cons] at each
        obtain ⟨same, rest⟩ := ih (Nat.succ.inj arity) others each.2
        exact ⟨congrArg Nat.succ same, .cons (each.1 _ first) rest⟩

/-! ## Causes of failure -/

/-- A step fails for causes with some property only. -/
def FailsFor (P : ε → Prop) (step : Except ε α) : Prop :=
  ∀ error, step = .error error → P error

variable {P : ε → Prop}

theorem failsFor_ok (value : α) : FailsFor P (.ok value) :=
  nofun

theorem failsFor_error {error : ε} (h : P error) : FailsFor P (.error error : Except ε α) := by
  intro error same
  cases same
  exact h

theorem FailsFor.bind {first : Except ε α} {next : α → Except ε β} (h : FailsFor P first)
    (h' : ∀ value, first = .ok value → FailsFor P (next value)) : FailsFor P (first >>= next) := by
  intro error failed
  rcases bind_error_iff.1 failed with early | ⟨value, passed, late⟩
  · exact h error early
  · exact h' value passed error late

theorem FailsFor.map {step : Except ε α} (h : FailsFor P step) (f : α → β) :
    FailsFor P (step.map f) := by
  intro error failed
  exact h error (map_error_iff.1 failed)

theorem failsFor_mapError {step : Except ε' α} {f : ε' → ε} (h : ∀ cause, P (f cause)) :
    FailsFor P (step.mapError f) := by
  intro error failed
  obtain ⟨cause, -, rfl⟩ := mapError_error_iff.1 failed
  exact h cause

theorem failsFor_mapM {step : α → Except ε β} {items : List α}
    (each : ∀ item ∈ items, FailsFor P (step item)) : FailsFor P (items.mapM step) := by
  intro error failed
  obtain ⟨before, item, after, rfl, -, last⟩ := mapM_error_iff.1 failed
  exact each item (by simp) error last

end MessageArgs
