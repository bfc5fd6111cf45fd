import MessageArgs.Signature.Grammar

/-!
# Derivations of signatures

The grammar as a relation on texts. `Element` and `Entry` have one constructor for each alternative
of their rule, and the `CompleteType` beside the text is the tree of the derivation.
`CompleteType.paths` lists the containers that each path from the root of that tree to a leaf
passes, so the limits on nesting are conditions on single paths.

The reader works with the tree alone. `Shaped` is the part of the grammar that a tree can break,
and `nesting` is the greatest number of containers of one kind on a path.

* `element_iff` and `entry_iff`: a derivation is its tree and the spelling of the tree.
* `nesting_le_iff`: a bound on every path is a bound on `nesting`.
* `Grammar.derives_iff`: a text is derived within the limits exactly when it spells a type that
  the grammar admits.
-/

namespace MessageArgs

/-- The limit on each kind of nesting. -/
def Nesting.limit : Nesting → Nat
  | array => maxArrays
  | struct => maxStructs

namespace CompleteType

/-! ## The rules -/

mutual

/-- `Element wildcard type text`: the rule for elements derives `text`, with `type` as the tree. -/
inductive Element (wildcard : Bool) : CompleteType → List Char → Prop
  | basic (type : BasicType) : Element wildcard (.basic type) [type.code]
  | variant : Element wildcard .variant ['v']
  | wildcard (allowed : wildcard = true) : Element wildcard .wildcard ['*']
  | array {element : CompleteType} {text : List Char} (derived : Element wildcard element text) :
    Element wildcard (.array element) ('a' :: text)
  | dictionary {entry : CompleteType} {text : List Char} (derived : Entry wildcard entry text) :
    Element wildcard (.array entry) ('a' :: text)
  | struct {members : List CompleteType} {text : List Char}
      (derived : Members wildcard members text) :
    Element wildcard (.struct members) ('(' :: (text ++ [')']))

/-- The rule for entries. -/
inductive Entry (wildcard : Bool) : CompleteType → List Char → Prop
  | entry (key : BasicType) {value : CompleteType} {text : List Char}
      (derived : Element wildcard value text) :
    Entry wildcard (.entry key value) ('{' :: key.code :: (text ++ ['}']))

/-- One or more elements. -/
inductive Members (wildcard : Bool) : List CompleteType → List Char → Prop
  | last {type : CompleteType} {text : List Char} (derived : Element wildcard type text) :
    Members wildcard [type] text
  | more {type : CompleteType} {types : List CompleteType} {text rest : List Char}
      (derived : Element wildcard type text) (others : Members wildcard types rest) :
    Members wildcard (type :: types) (text ++ rest)

end

/-! ## Paths -/

mutual

/-- The containers on each path from the root of a type to a leaf. The characters that a container
is written with are leaves too. -/
def paths : CompleteType → List (List Nesting)
  | basic _ | variant | wildcard => [[]]
  | array element => [.array] :: (paths element).map (.array :: ·)
  | struct members => [.struct] :: (pathsOfAll members).map (.struct :: ·)
  | entry _ value => [.struct] :: (paths value).map (.struct :: ·)

/-- The paths of several types that stand side by side. -/
def pathsOfAll : List CompleteType → List (List Nesting)
  | [] => []
  | type :: types => paths type ++ pathsOfAll types

end

mutual

/-- The greatest number of containers of one kind on a path. -/
def nesting (kind : Nesting) : CompleteType → Nat
  | basic _ | variant | wildcard => 0
  | array element => nesting kind element + [Nesting.array].count kind
  | struct members => nestingOfAll kind members + [Nesting.struct].count kind
  | entry _ value => nesting kind value + [Nesting.struct].count kind

/-- The greatest nesting of several types that stand side by side. -/
def nestingOfAll (kind : Nesting) : List CompleteType → Nat
  | [] => 0
  | type :: types => max (nesting kind type) (nestingOfAll kind types)

end

@[simp]
theorem nestingOfAll_le_iff {kind : Nesting} {types : List CompleteType} {bound : Nat} :
    nestingOfAll kind types ≤ bound ↔ ∀ type ∈ types, nesting kind type ≤ bound := by
  induction types with
  | nil => simp [nestingOfAll]
  | cons type types ih => rw [nestingOfAll, Nat.max_le, ih, List.forall_mem_cons]

theorem nesting_le_nestingOfAll (kind : Nesting) {type : CompleteType} {types : List CompleteType}
    (member : type ∈ types) : nesting kind type ≤ nestingOfAll kind types :=
  nestingOfAll_le_iff.1 (Nat.le_refl (nestingOfAll kind types)) type member

/-- One more container in front of every path. -/
theorem count_cons_le_iff {kind container : Nesting} {rest : List (List Nesting)} {depth : Nat}
    (ih : ∀ bound, (∀ path ∈ rest, path.count kind ≤ bound) ↔ depth ≤ bound) (bound : Nat) :
    (∀ path ∈ [container] :: rest.map (container :: ·), path.count kind ≤ bound) ↔
      depth + [container].count kind ≤ bound := by
  have split : ∀ path : List Nesting,
      (container :: path).count kind = path.count kind + [container].count kind := by
    intro path
    rw [List.count_cons, List.count_singleton]
  rw [List.forall_mem_cons, List.forall_mem_map]
  constructor
  · intro h
    obtain ⟨own, others⟩ := h
    have inner : depth ≤ bound - [container].count kind := by
      refine (ih _).1 fun path h => ?_
      have := others path h
      rw [split] at this
      omega
    omega
  · intro whole
    refine ⟨by omega, fun path h => ?_⟩
    have := (ih (bound - [container].count kind)).2 (by omega) path h
    rw [split]
    omega

mutual

/-- A bound on every path is a bound on the nesting. -/
theorem nesting_le_iff (kind : Nesting) : (type : CompleteType) → (bound : Nat) →
    ((∀ path ∈ type.paths, path.count kind ≤ bound) ↔ nesting kind type ≤ bound)
  | .basic _, _ => by simp [paths, nesting]
  | .variant, _ => by simp [paths, nesting]
  | .wildcard, _ => by simp [paths, nesting]
  | .array element, bound => by
    rw [paths, nesting]
    exact count_cons_le_iff (nesting_le_iff kind element) bound
  | .struct members, bound => by
    rw [paths, nesting]
    exact count_cons_le_iff (nestingOfAll_le_iff_paths kind members) bound
  | .entry _ value, bound => by
    rw [paths, nesting]
    exact count_cons_le_iff (nesting_le_iff kind value) bound

theorem nestingOfAll_le_iff_paths (kind : Nesting) : (types : List CompleteType) → (bound : Nat) →
    ((∀ path ∈ pathsOfAll types, path.count kind ≤ bound) ↔ nestingOfAll kind types ≤ bound)
  | [], _ => by simp [pathsOfAll, nestingOfAll]
  | type :: types, bound => by
    rw [pathsOfAll, nestingOfAll, List.forall_mem_append, nesting_le_iff kind type bound,
      nestingOfAll_le_iff_paths kind types bound, Nat.max_le]

end

/-! ## Shapes -/

mutual

/-- Whether the rules can derive a tree. An entry stands only where it is welcome: under an array,
and at the root if the flag says so. -/
def Shaped (wildcards : Bool) : Bool → CompleteType → Prop
  | _, basic _ | _, variant => True
  | _, wildcard => wildcards = true
  | _, array element => Shaped wildcards true element
  | _, struct members => members ≠ [] ∧ AllShaped wildcards members
  | entryWelcome, entry _ value => entryWelcome = true ∧ Shaped wildcards false value

/-- Whether the rules can derive each of several elements. -/
def AllShaped (wildcards : Bool) : List CompleteType → Prop
  | [] => True
  | type :: types => Shaped wildcards false type ∧ AllShaped wildcards types

end

theorem allShaped_iff {wildcards : Bool} {types : List CompleteType} :
    AllShaped wildcards types ↔ ∀ type ∈ types, Shaped wildcards false type := by
  induction types with
  | nil => simp [AllShaped]
  | cons type types ih => simp [AllShaped, ih]

/-- A type that is derived as an element is also one where entries are welcome. -/
theorem Shaped.welcome {wildcards entryWelcome : Bool} {type : CompleteType}
    (h : Shaped wildcards false type) : Shaped wildcards entryWelcome type := by
  cases type with
  | entry => simp [Shaped] at h
  | basic | variant => simp only [Shaped]
  | _ => simpa only [Shaped] using h

mutual

/-- More extensions allow more shapes. -/
theorem Shaped.mono {wildcards wildcards' : Bool}
    (wildcard : wildcards = true → wildcards' = true) :
    (type : CompleteType) → {entryWelcome entryWelcome' : Bool} →
    (entryWelcome = true → entryWelcome' = true) → Shaped wildcards entryWelcome type →
    Shaped wildcards' entryWelcome' type
  | .basic _, _, _, _, _ | .variant, _, _, _, _ => by simp only [Shaped]
  | .wildcard, _, _, _, shaped => by
    rw [Shaped] at shaped ⊢
    exact wildcard shaped
  | .array element, _, _, _, shaped => by
    rw [Shaped] at shaped ⊢
    exact Shaped.mono wildcard element id shaped
  | .struct members, _, _, _, shaped => by
    rw [Shaped] at shaped ⊢
    exact ⟨shaped.1, AllShaped.mono wildcard members shaped.2⟩
  | .entry _ value, _, _, welcome, shaped => by
    rw [Shaped] at shaped ⊢
    exact ⟨welcome shaped.1, Shaped.mono wildcard value id shaped.2⟩

theorem AllShaped.mono {wildcards wildcards' : Bool}
    (wildcard : wildcards = true → wildcards' = true) : (types : List CompleteType) →
    AllShaped wildcards types → AllShaped wildcards' types
  | [], _ => by rw [AllShaped]; trivial
  | type :: types, shaped => by
    rw [AllShaped] at shaped ⊢
    exact ⟨Shaped.mono wildcard type id shaped.1, AllShaped.mono wildcard types shaped.2⟩

end

mutual

/-- A shape without wildcards needs no wildcards. -/
theorem Shaped.resolved {wildcards : Bool} : (type : CompleteType) → {entryWelcome : Bool} →
    Shaped wildcards entryWelcome type → type.hasWildcard = false →
    Shaped false entryWelcome type
  | .basic _, _, _, _ | .variant, _, _, _ => by simp only [Shaped]
  | .wildcard, _, _, absent => by cases absent
  | .array element, _, shaped, absent => by
    rw [Shaped] at shaped ⊢
    rw [hasWildcard] at absent
    exact Shaped.resolved element shaped absent
  | .struct members, _, shaped, absent => by
    rw [Shaped] at shaped ⊢
    rw [hasWildcard] at absent
    exact ⟨shaped.1, AllShaped.resolved members shaped.2 absent⟩
  | .entry _ value, _, shaped, absent => by
    rw [Shaped] at shaped ⊢
    rw [hasWildcard] at absent
    exact ⟨shaped.1, Shaped.resolved value shaped.2 absent⟩

theorem AllShaped.resolved {wildcards : Bool} : (types : List CompleteType) →
    AllShaped wildcards types → hasWildcardAny types = false → AllShaped false types
  | [], _, _ => by rw [AllShaped]; trivial
  | type :: types, shaped, absent => by
    rw [AllShaped] at shaped ⊢
    rw [hasWildcardAny, Bool.or_eq_false_iff] at absent
    exact ⟨Shaped.resolved type shaped.1 absent.1, AllShaped.resolved types shaped.2 absent.2⟩

end

mutual

/-- Without wildcards in the grammar there are none in its shapes. -/
theorem Shaped.hasWildcard_eq : (type : CompleteType) → {entryWelcome : Bool} →
    Shaped false entryWelcome type → type.hasWildcard = false
  | .basic _, _, _ | .variant, _, _ => rfl
  | .wildcard, _, shaped => by simp [Shaped] at shaped
  | .array element, _, shaped => by
    rw [Shaped] at shaped
    rw [hasWildcard]
    exact Shaped.hasWildcard_eq element shaped
  | .struct members, _, shaped => by
    rw [Shaped] at shaped
    rw [hasWildcard]
    exact AllShaped.hasWildcardAny_eq members shaped.2
  | .entry _ value, _, shaped => by
    rw [Shaped] at shaped
    rw [hasWildcard]
    exact Shaped.hasWildcard_eq value shaped.2

theorem AllShaped.hasWildcardAny_eq : (types : List CompleteType) → AllShaped false types →
    hasWildcardAny types = false
  | [], _ => rfl
  | type :: types, shaped => by
    rw [AllShaped] at shaped
    rw [hasWildcardAny, Shaped.hasWildcard_eq type shaped.1,
      AllShaped.hasWildcardAny_eq types shaped.2]
    rfl

end

mutual

theorem Element.spelling {wildcards : Bool} {type : CompleteType} {text : List Char} :
    Element wildcards type text → text = type.chars ∧ Shaped wildcards false type
  | .basic _ => by simp [chars, Shaped]
  | .variant => by simp [chars, Shaped]
  | .wildcard allowed => by simp [chars, Shaped, allowed]
  | .array derived => by
    obtain ⟨rfl, shaped⟩ := derived.spelling
    exact ⟨by rw [chars], by rw [Shaped]; exact shaped.welcome⟩
  | .dictionary derived => by
    obtain ⟨rfl, shaped⟩ := derived.spelling
    exact ⟨by rw [chars], by rw [Shaped]; exact shaped⟩
  | .struct derived => by
    obtain ⟨rfl, nonempty, shaped⟩ := derived.spelling
    exact ⟨by rw [chars], by rw [Shaped]; exact ⟨nonempty, shaped⟩⟩

theorem Entry.spelling {wildcards : Bool} {type : CompleteType} {text : List Char} :
    Entry wildcards type text → text = type.chars ∧ Shaped wildcards true type
  | .entry _ derived => by
    obtain ⟨rfl, shaped⟩ := derived.spelling
    exact ⟨by rw [chars], by rw [Shaped]; exact ⟨rfl, shaped⟩⟩

theorem Members.spelling {wildcards : Bool} {types : List CompleteType} {text : List Char} :
    Members wildcards types text → text = charsAll types ∧ types ≠ [] ∧ AllShaped wildcards types
  | .last derived => by
    obtain ⟨rfl, shaped⟩ := derived.spelling
    simp [charsAll, AllShaped, shaped]
  | .more derived others => by
    obtain ⟨rfl, shaped⟩ := derived.spelling
    obtain ⟨rfl, -, allShaped⟩ := others.spelling
    simp [charsAll, AllShaped, shaped, allShaped]

end

theorem chars_ne_nil (type : CompleteType) : type.chars ≠ [] := by
  cases type <;> simp [chars]

@[simp]
theorem charsAll_singleton (type : CompleteType) : charsAll [type] = type.chars := by
  rw [charsAll, charsAll, List.append_nil]

mutual

theorem Shaped.element {wildcards : Bool} : (type : CompleteType) →
    Shaped wildcards false type → Element wildcards type type.chars
  | .basic type, _ => by rw [chars]; exact .basic type
  | .variant, _ => by rw [chars]; exact .variant
  | .wildcard, shaped => by
    rw [Shaped] at shaped
    rw [chars]
    exact .wildcard shaped
  | .array (.entry key value), shaped => by
    simp only [Shaped, true_and] at shaped
    rw [chars, chars]
    exact .dictionary (.entry key (Shaped.element value shaped))
  | .array (.basic type), _ => by
    rw [chars, chars]
    exact .array (.basic type)
  | .array .variant, _ => by
    rw [chars, chars]
    exact .array .variant
  | .array .wildcard, shaped => by
    simp only [Shaped] at shaped
    rw [chars, chars]
    exact .array (.wildcard shaped)
  | .array (.array element), shaped => by
    rw [chars]
    exact .array (Shaped.element (.array element) (by simpa only [Shaped] using shaped))
  | .array (.struct members), shaped => by
    rw [chars]
    exact .array (Shaped.element (.struct members) (by simpa only [Shaped] using shaped))
  | .struct members, shaped => by
    rw [Shaped] at shaped
    rw [chars]
    exact .struct (AllShaped.members members shaped.1 shaped.2)
  | .entry _ _, shaped => by simp [Shaped] at shaped

theorem AllShaped.members {wildcards : Bool} : (types : List CompleteType) → types ≠ [] →
    AllShaped wildcards types → Members wildcards types (charsAll types)
  | [], nonempty, _ => absurd rfl nonempty
  | [type], _, shaped => by
    rw [AllShaped] at shaped
    rw [charsAll_singleton]
    exact .last (Shaped.element type shaped.1)
  | type :: next :: types, _, shaped => by
    rw [AllShaped] at shaped
    rw [charsAll]
    exact .more (Shaped.element type shaped.1)
      (AllShaped.members (next :: types) (by simp) shaped.2)

end

/-- A derivation of an element is its tree and the spelling of the tree. -/
theorem element_iff {wildcards : Bool} {type : CompleteType} {text : List Char} :
    Element wildcards type text ↔ text = type.chars ∧ Shaped wildcards false type :=
  ⟨fun derived => derived.spelling, fun ⟨spelled, shaped⟩ => spelled ▸ Shaped.element type shaped⟩

/-- A derivation of an entry is its tree and the spelling of the tree. -/
theorem entry_iff {wildcards : Bool} {type : CompleteType} {text : List Char} :
    Entry wildcards type text ↔
      text = type.chars ∧ Shaped wildcards true type ∧ type.tag = .dictEntry := by
  constructor
  · intro derived
    obtain ⟨spelled, shaped⟩ := derived.spelling
    exact ⟨spelled, shaped, by cases derived; rfl⟩
  · intro h
    obtain ⟨rfl, shaped, isEntry⟩ := h
    cases type with
    | entry key value =>
      rw [Shaped] at shaped
      rw [chars]
      exact .entry key (Shaped.element value shaped.2)
    | _ => simp [tag] at isEntry

end CompleteType

namespace Grammar

open MessageArgs.CompleteType (Element Entry Shaped nesting)

/-! ## What a grammar admits -/

/-- A text that the grammar derives on its own, with no path beyond the limits. -/
def Derives (grammar : Grammar) (text : List Char) : Prop :=
  ∃ type : CompleteType,
    (Element grammar.wildcard type text ∨
      grammar.bareEntry = true ∧ Entry grammar.wildcard type text) ∧
    ∀ path ∈ type.paths,
      path.count .array ≤ maxArrays ∧ path.count .struct ≤ maxStructs

/-- A type that may stand on its own in a signature. -/
def Admits (grammar : Grammar) (type : CompleteType) : Prop :=
  Shaped grammar.wildcard grammar.bareEntry type ∧ ∀ kind, nesting kind type ≤ kind.limit

theorem shaped_bareEntry_iff {grammar : Grammar} {type : CompleteType} {text : List Char} :
    text = type.chars ∧ Shaped grammar.wildcard grammar.bareEntry type ↔
      Element grammar.wildcard type text ∨
        grammar.bareEntry = true ∧ Entry grammar.wildcard type text := by
  rw [CompleteType.element_iff, CompleteType.entry_iff]
  constructor
  · intro h
    obtain ⟨spelled, shaped⟩ := h
    cases type with
    | entry key value =>
      have bare : grammar.bareEntry = true := by
        rw [Shaped] at shaped
        exact shaped.1
      exact Or.inr ⟨bare, spelled, bare ▸ shaped, rfl⟩
    | basic | variant => exact Or.inl ⟨spelled, by simp only [Shaped]⟩
    | _ => exact Or.inl ⟨spelled, by simpa only [Shaped] using shaped⟩
  · intro h
    rcases h with ⟨spelled, shaped⟩ | ⟨bare, spelled, shaped, -⟩
    · exact ⟨spelled, shaped.welcome⟩
    · exact ⟨spelled, bare.symm ▸ shaped⟩

theorem nesting_le_limit_iff {type : CompleteType} :
    (∀ path ∈ type.paths, path.count .array ≤ maxArrays ∧ path.count .struct ≤ maxStructs) ↔
      ∀ kind, nesting kind type ≤ kind.limit := by
  constructor
  · rintro h (_ | _)
    · exact (CompleteType.nesting_le_iff .array type _).1 fun path member => (h path member).1
    · exact (CompleteType.nesting_le_iff .struct type _).1 fun path member => (h path member).2
  · intro h path member
    exact ⟨(CompleteType.nesting_le_iff .array type _).2 (h .array) path member,
      (CompleteType.nesting_le_iff .struct type _).2 (h .struct) path member⟩

/-- A text is derived within the limits exactly when it spells an admitted type. -/
theorem derives_iff {grammar : Grammar} {text : List Char} :
    grammar.Derives text ↔ ∃ type : CompleteType, text = type.chars ∧ grammar.Admits type := by
  simp only [Derives, Admits, ← shaped_bareEntry_iff, nesting_le_limit_iff, and_assoc]

/-- What one grammar admits, a grammar with more extensions admits too. -/
theorem Admits.mono {grammar wider : Grammar} {type : CompleteType} (h : grammar.Admits type)
    (wildcard : grammar.wildcard = true → wider.wildcard = true)
    (bareEntry : grammar.bareEntry = true → wider.bareEntry = true) : wider.Admits type :=
  ⟨h.1.mono wildcard type bareEntry, h.2⟩

end Grammar

end MessageArgs
