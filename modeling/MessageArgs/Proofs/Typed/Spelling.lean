import MessageArgs.Proofs.Signature.Composition
import MessageArgs.Proofs.Typed.Account

/-!
# Signatures of native types

The text of the signature of a native type says which complete type it spells, if it spells one at
all: whatever follows it in a text, nothing but the type of its `account` can be read off it
(`Spelled.reads`). So a native type whose signature is refused is one with maps whose keys are not
basic, or one that is too long or too deep.
-/

namespace MessageArgs

open MessageArgs.CompleteType (chars charsAll)

theorem Tag.code_ne_closing (tag : Tag) : tag.code ≠ ')' := by
  cases tag with
  | basic type => cases type <;> decide
  | _ => decide

/-- The signature of a type spells at most the complete type that its account names. -/
structure Model.Account.Spelled {model : Model} (account : Model.Account model) : Prop where
  reads : ∀ {type : CompleteType} {rest rest' : List Char},
    model.text.toList ++ rest = type.chars ++ rest' → account.type? = some type ∧ rest = rest'
  opens : ∃ c cs, model.text.toList = c :: cs ∧ c ≠ ')'
  alone : ∀ {type : CompleteType}, account.type? = some type → type.tag ≠ .dictEntry

/-- The signatures of several members spell at most the complete types that their account names. -/
structure Members.Account.Spelled {members : Members} (account : Members.Account members) :
    Prop where
  reads : ∀ {types : List CompleteType} {rest rest' : List Char},
    members.text.toList ++ ')' :: rest = charsAll types ++ ')' :: rest' →
      account.types? = some types ∧ rest = rest'

namespace Model.Account

theorem spelled_ofAtom {α : Type} (type : BasicType) (toAtom : α → Atom)
    (ofAtom? : Atom → Option α) (isKey : Bool) (Same : α → α → Prop) :
    (ofAtom type toAtom ofAtom? isKey Same).Spelled where
  reads := by
    intro found rest rest' spelled
    have text : (Model.ofAtom type toAtom ofAtom?).text.toList = [type.code] := by
      simp [Model.ofAtom]
    rw [text] at spelled
    have tags : found.tag = .basic type := CompleteType.tag_of_spelled spelled
    cases found <;> cases tags
    exact ⟨rfl, (List.cons.inj spelled).2⟩
  opens := ⟨type.code, [], by simp [Model.ofAtom], (Tag.basic type).code_ne_closing⟩
  alone named := by
    cases named
    simp [CompleteType.tag]

theorem spelled_argument : argument.Spelled where
  reads := by
    intro found rest rest' spelled
    have tags : found.tag = .variant := CompleteType.tag_of_spelled spelled
    cases found <;> cases tags
    exact ⟨rfl, (List.cons.inj spelled).2⟩
  opens := ⟨'v', [], rfl, by decide⟩
  alone named := by
    cases named
    simp [CompleteType.tag]

theorem spelled_list {item : Model} {account : Account item} (spelled : account.Spelled) :
    account.list.Spelled where
  reads := by
    intro found rest rest' same
    have text : (Model.list item).text.toList = 'a' :: item.text.toList := String.toList_append
    rw [text] at same
    have tags : found.tag = .array := CompleteType.tag_of_spelled same
    cases found <;> cases tags
    rename_i element
    rw [chars] at same
    obtain ⟨inside, rfl⟩ := spelled.reads (List.cons.inj same).2
    exact ⟨congrArg (Option.map CompleteType.array) inside, rfl⟩
  opens := ⟨'a', item.text.toList, String.toList_append, by decide⟩
  alone named := by
    obtain ⟨element, -, rfl⟩ := Option.map_eq_some_iff.1 named
    simp [CompleteType.tag]

theorem mapType?_eq_some_iff {key? element? : Option CompleteType} {type : CompleteType} :
    mapType? key? element? = some type ↔ ∃ key element, key? = some (.basic key) ∧
      element? = some element ∧ type = .array (.entry key element) := by
  constructor
  · intro named
    unfold mapType? at named
    split at named
    · rename_i key element
      cases named
      exact ⟨key, element, rfl, rfl, rfl⟩
    · cases named
  · intro named
    obtain ⟨key, element, rfl, rfl, rfl⟩ := named
    rfl

theorem spelled_map {key value : Model} {keys : Account key} {values : Account value}
    (spelledKeys : keys.Spelled) (spelledValues : values.Spelled) : (keys.map values).Spelled where
  reads := by
    intro found rest rest' same
    have text : (Model.map key value).text.toList =
        'a' :: '{' :: (key.text.toList ++ (value.text.toList ++ ['}'])) := by
      simp [Model.map]
    rw [text] at same
    have tags : found.tag = .array := CompleteType.tag_of_spelled same
    cases found <;> cases tags
    rename_i element
    rw [chars] at same
    have entry := (List.cons.inj same).2
    have tags : element.tag = .dictEntry := CompleteType.tag_of_spelled entry
    cases element <;> cases tags
    rename_i name content
    have pair : key.text.toList ++ (value.text.toList ++ (['}'] ++ rest)) =
        (CompleteType.basic name).chars ++ (content.chars ++ (['}'] ++ rest')) := by
      simpa [chars] using entry
    obtain ⟨basic, others⟩ := spelledKeys.reads pair
    obtain ⟨inside, closed⟩ := spelledValues.reads others
    refine ⟨?_, List.append_cancel_left closed⟩
    show mapType? keys.type? values.type? = _
    rw [basic, inside, mapType?]
  opens := ⟨'a', '{' :: (key.text.toList ++ (value.text.toList ++ ['}'])), by simp [Model.map],
    by decide⟩
  alone named := by
    obtain ⟨name, content, -, -, rfl⟩ := mapType?_eq_some_iff.1 named
    simp [CompleteType.tag]

theorem spelled_tuple {members : Members} {account : members.Account} (spelled : account.Spelled) :
    (tuple account).Spelled where
  reads := by
    intro found rest rest' same
    have text : (Model.tuple members).text.toList = '(' :: (members.text.toList ++ [')']) := by
      simp [Model.tuple]
    rw [text] at same
    have tags : found.tag = .struct := CompleteType.tag_of_spelled same
    cases found <;> cases tags
    rename_i types
    rw [chars] at same
    simp only [List.cons_append, List.append_assoc, List.nil_append, List.cons.injEq,
      true_and] at same
    obtain ⟨inside, rfl⟩ := spelled.reads same
    exact ⟨congrArg (Option.map CompleteType.struct) inside, rfl⟩
  opens := ⟨'(', members.text.toList ++ [')'], by simp [Model.tuple], by decide⟩
  alone named := by
    obtain ⟨types, -, rfl⟩ := Option.map_eq_some_iff.1 named
    simp [CompleteType.tag]

end Model.Account

namespace Members.Account

theorem spelled_nil : nil.Spelled where
  reads := by
    intro types rest rest' same
    cases types with
    | nil => exact ⟨rfl, (List.cons.inj same).2⟩
    | cons type types =>
      obtain ⟨own, opened⟩ := type.chars_eq_cons
      rw [charsAll, opened] at same
      exact absurd (List.cons.inj same).1.symm type.tag.code_ne_closing

theorem spelled_cons {first : Model} {rest : Members} {head : first.Account} {tail : rest.Account}
    (spelledHead : head.Spelled) (spelledTail : tail.Spelled) : (cons head tail).Spelled where
  reads := by
    intro types remaining remaining' same
    have text : (Members.cons first rest).text.toList = first.text.toList ++ rest.text.toList :=
      String.toList_append
    rw [text, List.append_assoc] at same
    cases types with
    | nil =>
      obtain ⟨c, cs, opened, other⟩ := spelledHead.opens
      rw [opened] at same
      exact absurd (List.cons.inj same).1 other
    | cons type types =>
      rw [charsAll, List.append_assoc] at same
      obtain ⟨own, same⟩ := spelledHead.reads same
      obtain ⟨others, rfl⟩ := spelledTail.reads same
      refine ⟨?_, rfl⟩
      show (head.type?.bind fun type => tail.types?.map fun types => type :: types) = _
      rw [own, others]
      rfl

end Members.Account

namespace NativeType

open Model.Account Members.Account

theorem spelled (type : NativeType) : type.account.Spelled := by
  induction type with
  | byte | bool | int16 | uint16 | int32 | uint32 | int64 | uint64 | single | double | string =>
    exact spelled_ofAtom ..
  | argument => exact spelled_argument
  | list item ih => exact spelled_list ih
  | map key value ihKey ihValue => exact spelled_map ihKey ihValue
  | tuple1 a iha => exact spelled_tuple (spelled_cons iha spelled_nil)
  | tuple2 a b iha ihb => exact spelled_tuple (spelled_cons iha (spelled_cons ihb spelled_nil))
  | tuple3 a b c iha ihb ihc =>
    exact spelled_tuple (spelled_cons iha (spelled_cons ihb (spelled_cons ihc spelled_nil)))
  | tuple4 a b c d iha ihb ihc ihd =>
    exact spelled_tuple
      (spelled_cons iha (spelled_cons ihb (spelled_cons ihc (spelled_cons ihd spelled_nil))))

/-- A native type whose signature is accepted travels under the complete type of its account. -/
theorem type?_of_parseSingle {type : NativeType} {signature : Signature}
    (parsed : Signature.parseSingle type.signature = .ok signature) :
    ∃ complete, type.account.type? = some complete ∧ type.signature = complete.text ∧
      Grammar.caller.Accepts complete ∧ signature = .ofType complete := by
  obtain ⟨complete, read, rfl⟩ := Signature.parseSingle_iff.1 parsed
  obtain ⟨text, accepted⟩ := Grammar.read_single read
  have spelling : type.signature.toList ++ [] = complete.chars ++ [] := by
    rw [text, CompleteType.text, String.toList_ofList]
  exact ⟨complete, (type.spelled.reads spelling).1, text, accepted, congrArg Signature.mk text⟩

end NativeType

end MessageArgs
