import MessageArgs.Argument.Markup
import MessageArgs.Proofs.Argument.Nodes
import MessageArgs.Proofs.Fingerprint

/-!
# What XML says about an argument

The rendering of an argument can be read off any text that begins with it. A payload ends at the
first bracket or quote, since escaping leaves none in it (`payload_inj`). The name in an opening tag
ends at a blank or a bracket, so the tag is known (`tag_eq_of_markup`). A line with a child is
indented by two more spaces than the line that closes its parent, so it is known where the children
end (`markupLines_inj`).

What is read in this way is everything that is shown (`shown`, `toXml_eq_iff`). In a well-formed
argument the signatures that are not shown follow from the contents, and so only doubles with the
same digits could be mistaken for each other (`eq_of_alike`).
-/

namespace MessageArgs

/-- Where the first character without a property stands is known. -/
theorem append_cons_inj {p : Char → Prop} {front front' rest rest' : List Char} {c c' : Char}
    (h : ∀ other ∈ front, p other) (h' : ∀ other ∈ front', p other) (stop : ¬ p c)
    (stop' : ¬ p c') (same : front ++ c :: rest = front' ++ c' :: rest') :
    front = front' ∧ c = c' ∧ rest = rest' := by
  induction front generalizing front' with
  | nil =>
    cases front' with
    | nil =>
      cases same
      exact ⟨rfl, rfl, rfl⟩
    | cons other front' =>
      cases same
      exact absurd (h' c List.mem_cons_self) stop
  | cons first front ih =>
    rw [List.forall_mem_cons] at h
    cases front' with
    | nil =>
      cases same
      exact absurd h.1 stop'
    | cons other front' =>
      rw [List.forall_mem_cons] at h'
      rw [List.cons_append, List.cons_append, List.cons.injEq] at same
      obtain ⟨rfl, found⟩ := ih h.2 h'.2 same.2
      exact ⟨by rw [same.1], found⟩

namespace Tag

theorem find?_name (tag : Tag) : all.find? (fun other => other.name = tag.name) = some tag := by
  cases tag with
  | basic type => cases type <;> rfl
  | _ => rfl

theorem name_inj {tag tag' : Tag} (same : tag.name = tag'.name) : tag = tag' := by
  have found := find?_name tag
  rw [same, find?_name] at found
  exact (Option.some.inj found).symm

/-- A name ends before what follows it in an opening tag. -/
theorem name_plain (tag : Tag) : ∀ c ∈ tag.name.toList, ¬ (c = '>' ∨ c = ' ') := by
  cases tag with
  | basic type => cases type <;> simp [name, BasicType.name]
  | _ => simp [name]

end Tag

namespace Argument

/-! ## Payloads -/

/-- Reads the first character of a payload and gives back what follows it. -/
def unescape? : List Char → Option (Char × List Char)
  | [] => none
  | '&' :: 'a' :: 'm' :: 'p' :: ';' :: rest => some ('&', rest)
  | '&' :: 'l' :: 't' :: ';' :: rest => some ('<', rest)
  | '&' :: 'g' :: 't' :: ';' :: rest => some ('>', rest)
  | '&' :: 'q' :: 'u' :: 'o' :: 't' :: ';' :: rest => some ('"', rest)
  | c :: rest => some (c, rest)

/-- A character that is not escaped stands for itself. -/
theorem unescape?_cons {c : Char} (plain : c ≠ '&') (rest : List Char) :
    unescape? (c :: rest) = some (c, rest) := by
  unfold unescape?
  split <;> simp_all

/-- An escaped character in front of any text can be read off it. -/
theorem unescape?_escapeChar (c : Char) (rest : List Char) :
    unescape? (escapeChar c ++ rest) = some (c, rest) := by
  rw [escapeChar]
  split_ifs with ampersand opens closes quote
  · rw [ampersand]
    rfl
  · rw [opens]
    rfl
  · rw [closes]
    rfl
  · rw [quote]
    rfl
  · exact unescape?_cons ampersand rest

theorem escapeChar_inj {c c' : Char} {rest rest' : List Char}
    (same : escapeChar c ++ rest = escapeChar c' ++ rest') : c = c' ∧ rest = rest' := by
  have read := congrArg unescape? same
  rw [unescape?_escapeChar, unescape?_escapeChar] at read
  cases read
  exact ⟨rfl, rfl⟩

theorem escapeChar_ne_nil (c : Char) : escapeChar c ≠ [] := by
  unfold escapeChar
  split_ifs <;> simp

theorem flatMap_escapeChar_inj {text text' : List Char}
    (same : text.flatMap escapeChar = text'.flatMap escapeChar) : text = text' := by
  induction text generalizing text' with
  | nil =>
    cases text' with
    | nil => rfl
    | cons c text' =>
      rw [List.flatMap_nil, List.flatMap_cons, eq_comm, List.append_eq_nil_iff] at same
      exact absurd same.1 (escapeChar_ne_nil c)
  | cons c text ih =>
    cases text' with
    | nil =>
      rw [List.flatMap_nil, List.flatMap_cons, List.append_eq_nil_iff] at same
      exact absurd same.1 (escapeChar_ne_nil c)
    | cons c' text' =>
      rw [List.flatMap_cons, List.flatMap_cons] at same
      obtain ⟨rfl, rest⟩ := escapeChar_inj same
      rw [ih rest]

/-- Escaping leaves no character that could end a payload. -/
theorem escape_plain (text : String) : ∀ c ∈ escape text, ¬ (c = '<' ∨ c = '"') := by
  rw [escape, List.forall_mem_flatMap]
  intro c _
  unfold escapeChar
  split_ifs <;> simp_all

/-- A payload ends at the first bracket or quote. -/
theorem payload_inj {text text' : String} {stop : Char} {rest rest' : List Char}
    (ends : stop = '<' ∨ stop = '"')
    (same : escape text ++ stop :: rest = escape text' ++ stop :: rest') :
    text = text' ∧ rest = rest' := by
  obtain ⟨payload, -, behind⟩ := append_cons_inj (escape_plain text) (escape_plain text')
    (not_not.2 ends) (not_not.2 ends) same
  exact ⟨String.toList_inj.1 (flatMap_escapeChar_inj payload), behind⟩

theorem signatureAttribute_inj {name : String} {value value' : Signature} {rest rest' : List Char}
    (same : signatureAttribute name value ++ rest = signatureAttribute name value' ++ rest') :
    value = value' ∧ rest = rest' := by
  simp only [signatureAttribute, List.cons_append, List.append_assoc, List.nil_append,
    List.cons.injEq, true_and, List.append_cancel_left_eq] at same
  obtain ⟨text, behind⟩ := payload_inj (Or.inr rfl) same
  exact ⟨Signature.eq_iff.2 text, behind⟩

/-! ## Lines -/

theorem margin_plain (indent : Nat) : ∀ c ∈ margin indent, c = ' ' := by
  intro c member
  exact List.eq_of_mem_replicate member

/-- The indentation of a line is known. -/
theorem margin_inj {indent indent' : Nat} {rest rest' : List Char}
    (same : margin indent ++ '<' :: rest = margin indent' ++ '<' :: rest') :
    indent = indent' ∧ rest = rest' := by
  obtain ⟨front, -, behind⟩ := append_cons_inj (margin_plain indent) (margin_plain indent')
    (by decide) (by decide) same
  have widths := congrArg List.length front
  rw [margin, margin, List.length_replicate, List.length_replicate] at widths
  exact ⟨widths, behind⟩

/-- A rendering begins with its indentation and its tag. -/
theorem markup_eq_opening (indent : Nat) (arg : Argument) :
    ∃ c rest, (c = '>' ∨ c = ' ') ∧
      markup indent arg = margin indent ++ '<' :: (arg.tag.name.toList ++ c :: rest) := by
  cases arg with
  | scalar | struct | dictEntry =>
    exact ⟨'>', _, .inl rfl, by simp [markup, scalarMarkup, openTag, tag, Tag.name]; rfl⟩
  | array | variant =>
    exact ⟨' ', _, .inr rfl, by simp [markup, openTag, signatureAttribute, tag, Tag.name]; rfl⟩

/-- The tag of an argument can be read off its rendering. -/
theorem tag_eq_of_markup {indent : Nat} {arg arg' : Argument} {rest rest' : List Char}
    (same : markup indent arg ++ rest = markup indent arg' ++ rest') : arg.tag = arg'.tag := by
  obtain ⟨c, text, ends, opening⟩ := markup_eq_opening indent arg
  obtain ⟨c', text', ends', opening'⟩ := markup_eq_opening indent arg'
  rw [opening, opening', List.append_assoc, List.append_assoc, List.append_cancel_left_eq,
    List.cons_append, List.cons_append, List.cons.injEq, List.append_assoc, List.append_assoc]
    at same
  obtain ⟨name, -, -⟩ := append_cons_inj arg.tag.name_plain arg'.tag.name_plain
    (not_not.2 ends) (not_not.2 ends') same.2
  exact Tag.name_inj (String.toList_inj.1 name)

/-! ## What is shown -/

mutual

/-- Two arguments that differ in nothing that is shown. -/
def Alike : Argument → Argument → Prop
  | scalar value, scalar value' => value.type = value'.type ∧ value.text = value'.text
  | array element _ items, array element' _ items' => element = element' ∧ AllAlike items items'
  | struct _ members, struct _ members' => AllAlike members members'
  | dictEntry _ key value, dictEntry _ key' value' =>
    (key.type = key'.type ∧ key.text = key'.text) ∧ Alike value value'
  | variant content, variant content' =>
    content.signature = content'.signature ∧ Alike content content'
  | _, _ => False

/-- Lists of arguments that are alike one by one. -/
def AllAlike : List Argument → List Argument → Prop
  | [], [] => True
  | arg :: args, arg' :: args' => Alike arg arg' ∧ AllAlike args args'
  | _, _ => False

end

/-- What is shown of an argument can be read off any text that begins with its rendering. -/
def Shown (arg : Argument) : Prop :=
  ∀ {indent : Nat} {arg' : Argument} {rest rest' : List Char},
    markup indent arg ++ rest = markup indent arg' ++ rest' → Alike arg arg' ∧ rest = rest'

theorem scalarMarkup_inj {indent : Nat} {value value' : Scalar} {rest rest' : List Char}
    (same : scalarMarkup indent value ++ rest = scalarMarkup indent value' ++ rest') :
    (value.type = value'.type ∧ value.text = value'.text) ∧ rest = rest' := by
  have tags : (scalar value).tag = (scalar value').tag := tag_eq_of_markup same
  have types : value.type = value'.type := Tag.basic.inj tags
  simp only [scalarMarkup, closeTag, types, List.append_assoc, List.append_cancel_left_eq,
    List.cons_append, List.nil_append, List.cons.injEq, true_and] at same
  obtain ⟨text, behind⟩ := payload_inj (Or.inl rfl) same
  rw [List.cons.injEq, List.append_cancel_left_eq, List.cons.injEq] at behind
  exact ⟨⟨types, text⟩, behind.2.2⟩

/-- A line that closes an argument is not the line of a child, which is indented more. -/
theorem closeLine_ne_markup (indent : Nat) (name : String) (arg : Argument)
    (text text' : List Char) :
    closeLine indent name ++ text ≠ '\n' :: (markup (indent + 2) arg ++ text') := by
  intro clash
  obtain ⟨c, behind, -, opening⟩ := markup_eq_opening (indent + 2) arg
  simp only [opening, closeLine, closeTag, List.cons_append, List.nil_append, List.append_assoc,
    List.cons.injEq, true_and] at clash
  have widths := (margin_inj clash).1
  omega

/-- The children of an argument end where a line is indented less. -/
theorem markupLines_inj {indent : Nat} {name : String} {args args' : List Argument}
    {rest rest' : List Char} (each : ∀ arg ∈ args, arg.Shown)
    (same : markupLines (indent + 2) args ++ (closeLine indent name ++ rest) =
      markupLines (indent + 2) args' ++ (closeLine indent name ++ rest')) :
    AllAlike args args' ∧ rest = rest' := by
  induction args generalizing args' with
  | nil =>
    cases args' with
    | nil => exact ⟨trivial, List.append_cancel_left same⟩
    | cons arg' args' =>
      rw [markupLines, markupLines, List.nil_append, List.cons_append, List.append_assoc] at same
      exact absurd same (closeLine_ne_markup indent name arg' rest _)
  | cons arg args ih =>
    rw [List.forall_mem_cons] at each
    cases args' with
    | nil =>
      rw [markupLines, markupLines, List.nil_append, List.cons_append, List.append_assoc] at same
      exact absurd same.symm (closeLine_ne_markup indent name arg rest' _)
    | cons arg' args' =>
      rw [markupLines, markupLines, List.cons_append, List.cons_append, List.cons.injEq,
        List.append_assoc, List.append_assoc] at same
      obtain ⟨alike, others⟩ := each.1 same.2
      obtain ⟨all, behind⟩ := ih each.2 others
      exact ⟨⟨alike, all⟩, behind⟩

theorem shown_array {element signature : Signature} {items : List Argument}
    (each : ∀ item ∈ items, item.Shown) : (array element signature items).Shown := by
  intro indent arg' rest rest' same
  have tags := tag_eq_of_markup same
  cases arg' with
  | array element' signature' items' =>
    simp only [markup, List.append_assoc, List.append_cancel_left_eq] at same
    obtain ⟨stated, inside⟩ := signatureAttribute_inj same
    cases items with
    | nil =>
      cases items' with
      | nil => exact ⟨⟨stated, trivial⟩, by simpa using inside⟩
      | cons => simp at inside
    | cons item items =>
      cases items' with
      | nil => simp at inside
      | cons item' items' =>
        simp only [List.isEmpty_cons, Bool.false_eq_true, if_false, List.append_assoc,
          List.append_cancel_left_eq] at inside
        obtain ⟨all, behind⟩ := markupLines_inj each inside
        exact ⟨⟨stated, all⟩, behind⟩
  | _ => cases tags

theorem shown_struct {signature : Signature} {members : List Argument}
    (each : ∀ member ∈ members, member.Shown) : (struct signature members).Shown := by
  intro indent arg' rest rest' same
  have tags := tag_eq_of_markup same
  cases arg' with
  | struct signature' members' =>
    simp only [markup, List.append_assoc, List.append_cancel_left_eq] at same
    exact markupLines_inj each same
  | _ => cases tags

theorem shown_entry {signature : Signature} {key : Scalar} {value : Argument}
    (each : value.Shown) : (dictEntry signature key value).Shown := by
  intro indent arg' rest rest' same
  have tags := tag_eq_of_markup same
  cases arg' with
  | dictEntry signature' key' value' =>
    simp only [markup, List.append_assoc, List.append_cancel_left_eq] at same
    obtain ⟨name, behind⟩ := scalarMarkup_inj same
    obtain ⟨alike, closing⟩ := each (List.append_cancel_left behind)
    exact ⟨⟨name, alike⟩, List.append_cancel_left closing⟩
  | _ => cases tags

theorem shown_variant {content : Argument} (each : content.Shown) : (variant content).Shown := by
  intro indent arg' rest rest' same
  have tags := tag_eq_of_markup same
  cases arg' with
  | variant content' =>
    simp only [markup, List.append_assoc, List.append_cancel_left_eq] at same
    obtain ⟨stated, inside⟩ := signatureAttribute_inj same
    obtain ⟨alike, closing⟩ := each (List.append_cancel_left inside)
    exact ⟨⟨stated, alike⟩, List.append_cancel_left closing⟩
  | _ => cases tags

/-- Everything that is shown can be read off a text that begins with a rendering. -/
theorem shown (arg : Argument) : arg.Shown := by
  induction arg using Argument.induction with
  | scalar value =>
    intro indent arg' rest rest' same
    have tags := tag_eq_of_markup same
    cases arg' with
    | scalar value' => exact scalarMarkup_inj same
    | _ => cases tags
  | array element signature items ih => exact shown_array ih
  | struct signature members ih => exact shown_struct ih
  | dictEntry signature key value ih => exact shown_entry ih
  | variant content ih => exact shown_variant ih

theorem allAlike_iff {args args' : List Argument} :
    AllAlike args args' ↔ List.Forall₂ Alike args args' := by
  induction args generalizing args' with
  | nil => cases args' <;> simp [AllAlike]
  | cons arg args ih =>
    cases args' with
    | nil => simp [AllAlike]
    | cons arg' args' => rw [AllAlike, ih, List.forall₂_cons]

theorem markupLines_of_alike {indent : Nat} {args args' : List Argument}
    (each : ∀ arg ∈ args, ∀ arg', Alike arg arg' → markup indent arg = markup indent arg')
    (alike : AllAlike args args') : markupLines indent args = markupLines indent args' := by
  induction args generalizing args' with
  | nil =>
    cases args' with
    | nil => rfl
    | cons => cases alike
  | cons arg args ih =>
    rw [List.forall_mem_cons] at each
    cases args' with
    | nil => cases alike
    | cons arg' args' =>
      rw [AllAlike] at alike
      rw [markupLines, markupLines, each.1 arg' alike.1, ih each.2 alike.2]

theorem scalarMarkup_of_alike {indent : Nat} {value value' : Scalar}
    (alike : value.type = value'.type ∧ value.text = value'.text) :
    scalarMarkup indent value = scalarMarkup indent value' := by
  rw [scalarMarkup, scalarMarkup, alike.1, alike.2]

/-- Nothing else is shown. -/
theorem markup_of_alike {indent : Nat} {arg arg' : Argument} (alike : Alike arg arg') :
    markup indent arg = markup indent arg' := by
  induction arg using Argument.induction generalizing indent arg' with
  | scalar value =>
    cases arg' with
    | scalar value' => exact scalarMarkup_of_alike alike
    | _ => cases alike
  | array element signature items ih =>
    cases arg' with
    | array element' signature' items' =>
      obtain ⟨rfl, all⟩ := alike
      have lines := markupLines_of_alike (fun item member _ => @ih item member (indent + 2) _) all
      have sizes := (allAlike_iff.1 all).length_eq
      have empty : items.isEmpty = items'.isEmpty := by
        rw [Bool.eq_iff_iff, List.isEmpty_iff_length_eq_zero, List.isEmpty_iff_length_eq_zero,
          sizes]
      rw [markup, markup, lines, empty]
    | _ => cases alike
  | struct signature members ih =>
    cases arg' with
    | struct signature' members' =>
      have lines := markupLines_of_alike (fun member present _ => @ih member present (indent + 2) _)
        alike
      rw [markup, markup, lines]
    | _ => cases alike
  | dictEntry signature key value ih =>
    cases arg' with
    | dictEntry signature' key' value' =>
      rw [markup, markup, scalarMarkup_of_alike alike.1, ih alike.2]
    | _ => cases alike
  | variant content ih =>
    cases arg' with
    | variant content' =>
      rw [markup, markup, alike.1, ih alike.2]
    | _ => cases alike

/-! ## What is not shown -/

/-- Doubles of two arguments that have the same digits are the same. -/
def DoublesTold (arg arg' : Argument) : Prop :=
  ∀ x y, .scalar (.double x) ∈ arg.nodes true → .scalar (.double y) ∈ arg'.nodes true →
    (Scalar.double x).text = (Scalar.double y).text → x = y

theorem DoublesTold.mono {arg arg' part part' : Argument} (told : DoublesTold arg arg')
    (inside : part.nodes true ⊆ arg.nodes true) (inside' : part'.nodes true ⊆ arg'.nodes true) :
    DoublesTold part part' :=
  fun x y member member' => told x y (inside member) (inside' member')

theorem DoublesTold.array {element signature element' signature' : Signature}
    {items items' : List Argument}
    (told : DoublesTold (array element signature items) (array element' signature' items'))
    {item item' : Argument} (member : item ∈ items) (member' : item' ∈ items') :
    DoublesTold item item' :=
  told.mono (List.subset_cons_of_subset _ (nodes_subset_nodesOfAll member))
    (List.subset_cons_of_subset _ (nodes_subset_nodesOfAll member'))

theorem DoublesTold.struct {signature signature' : Signature} {members members' : List Argument}
    (told : DoublesTold (struct signature members) (struct signature' members'))
    {member member' : Argument} (present : member ∈ members) (present' : member' ∈ members') :
    DoublesTold member member' :=
  told.mono (List.subset_cons_of_subset _ (nodes_subset_nodesOfAll present))
    (List.subset_cons_of_subset _ (nodes_subset_nodesOfAll present'))

theorem DoublesTold.entry {signature signature' : Signature} {key key' : Scalar}
    {value value' : Argument}
    (told : DoublesTold (dictEntry signature key value) (dictEntry signature' key' value')) :
    DoublesTold (scalar key) (scalar key') ∧ DoublesTold value value' := by
  constructor
  · refine told.mono ?_ ?_ <;>
      exact List.cons_subset.2 ⟨List.mem_cons_of_mem _ List.mem_cons_self, List.nil_subset _⟩
  · refine told.mono ?_ ?_ <;>
      exact List.subset_cons_of_subset _ (List.subset_cons_self _ _)

theorem DoublesTold.variant {content content' : Argument}
    (told : DoublesTold (variant content) (variant content')) : DoublesTold content content' :=
  told.mono (List.subset_cons_self _ _) (List.subset_cons_self _ _)

/-- Only doubles can have the same type and text and yet differ. -/
theorem scalar_eq_of_alike {value value' : Scalar}
    (told : DoublesTold (scalar value) (scalar value'))
    (alike : value.type = value'.type ∧ value.text = value'.text) : value = value' := by
  obtain ⟨type, text⟩ := alike
  cases value with
  | double x =>
    cases value' with
    | double y => rw [told x y (List.mem_singleton.2 rfl) (List.mem_singleton.2 rfl) text]
    | _ => cases type
  | _ => cases value' <;> first | exact Scalar.mark_inj type text | cases type

theorem eq_of_allAlike {args args' : List Argument}
    (each : ∀ arg ∈ args, ∀ arg' ∈ args', Alike arg arg' → arg = arg')
    (alike : AllAlike args args') : args = args' := by
  induction args generalizing args' with
  | nil =>
    cases args' with
    | nil => rfl
    | cons => cases alike
  | cons arg args ih =>
    cases args' with
    | nil => cases alike
    | cons arg' args' =>
      rw [AllAlike] at alike
      have first := each arg List.mem_cons_self arg' List.mem_cons_self alike.1
      have others := ih (fun other member other' member' =>
        each other (List.mem_cons_of_mem _ member) other' (List.mem_cons_of_mem _ member')) alike.2
      rw [first, others]

/-- In well-formed arguments the signatures that are not shown follow from what is shown. -/
theorem eq_of_alike {arg arg' : Argument} (formed : arg.WellFormed) (formed' : arg'.WellFormed)
    (told : DoublesTold arg arg') (alike : Alike arg arg') : arg = arg' := by
  induction arg using Argument.induction generalizing arg' with
  | scalar value =>
    cases arg' with
    | scalar value' => rw [scalar_eq_of_alike told alike]
    | _ => cases alike
  | array element signature items ih =>
    cases arg' with
    | array element' signature' items' =>
      obtain ⟨rfl, all⟩ := alike
      rw [WellFormed, allWellFormed_iff] at formed formed'
      have same : items = items' := eq_of_allAlike (fun item member item' member' =>
        ih item member (formed.2.2.2 item member) (formed'.2.2.2 item' member')
          (told.array member member')) all
      rw [same, Signature.eq_iff.2 (formed.1.trans formed'.1.symm)]
    | _ => cases alike
  | struct signature members ih =>
    cases arg' with
    | struct signature' members' =>
      rw [WellFormed, allWellFormed_iff] at formed formed'
      have same : members = members' := eq_of_allAlike (fun item member item' member' =>
        ih item member (formed.2.2.2.2 item member) (formed'.2.2.2.2 item' member')
          (told.struct member member')) alike
      subst same
      rw [Signature.eq_iff.2 (formed.2.1.trans formed'.2.1.symm)]
    | _ => cases alike
  | dictEntry signature key value ih =>
    cases arg' with
    | dictEntry signature' key' value' =>
      obtain ⟨name, content⟩ := alike
      rw [WellFormed] at formed formed'
      have keys : key = key' := scalar_eq_of_alike told.entry.1 name
      have values : value = value' := ih formed.2.2.2 formed'.2.2.2 told.entry.2 content
      subst keys values
      rw [Signature.eq_iff.2 (formed.1.trans formed'.1.symm)]
    | _ => cases alike
  | variant content ih =>
    cases arg' with
    | variant content' =>
      rw [wellFormed_variant_iff] at formed formed'
      rw [ih formed formed' told.variant alike.2]
    | _ => cases alike

/-! ## Main result -/

theorem shown_of_toXml {indent : Nat} {arg arg' : Argument} {rest rest' : String}
    (same : arg.toXml indent ++ rest = arg'.toXml indent ++ rest') :
    Alike arg arg' ∧ rest = rest' := by
  have letters := congrArg String.toList same
  rw [String.toList_append, String.toList_append, toXml, toXml, String.toList_ofList,
    String.toList_ofList] at letters
  obtain ⟨alike, behind⟩ := shown arg letters
  exact ⟨alike, String.toList_inj.1 behind⟩

/-- Arguments have the same rendering just if what is shown is the same. -/
theorem toXml_eq_iff {indent : Nat} {arg arg' : Argument} :
    arg.toXml indent = arg'.toXml indent ↔ Alike arg arg' := by
  constructor
  · intro same
    have padded : arg.toXml indent ++ "" = arg'.toXml indent ++ "" := by rw [same]
    exact (shown_of_toXml padded).1
  · intro alike
    rw [toXml, toXml, markup_of_alike alike]

/-- Well-formed arguments whose doubles can be told apart by their digits have the same rendering
only if they are the same. No rendering is the beginning of another one at the same indentation, so
an argument can also be read off its rendering in front of any text, siblings and closing tags
included. Nothing is asked of the texts, paths and signatures in them. -/
theorem toXml_unambiguous (indent : Nat) {arg arg' : Argument} (formed : arg.WellFormed)
    (formed' : arg'.WellFormed) :
    (DoublesTold arg arg' → arg.toXml indent = arg'.toXml indent → arg = arg') ∧
    (∀ rest, arg.toXml indent ++ rest = arg'.toXml indent → rest = "") ∧
    (DoublesTold arg arg' → ∀ rest rest', arg.toXml indent ++ rest = arg'.toXml indent ++ rest' →
      arg = arg' ∧ rest = rest') := by
  refine ⟨fun told same => ?_, fun rest same => ?_, fun told rest rest' same => ?_⟩
  · exact eq_of_alike formed formed' told (toXml_eq_iff.1 same)
  · have padded : arg.toXml indent ++ rest = arg'.toXml indent ++ "" := by
      rw [same, String.append_empty]
    exact (shown_of_toXml padded).2
  · obtain ⟨alike, behind⟩ := shown_of_toXml same
    exact ⟨eq_of_alike formed formed' told alike, behind⟩

/-- A text that imitates the element of another text, in front of a double. -/
def imitation : Argument :=
  .struct ⟨"(sd)"⟩
    [.scalar (.string "a</string>\n  <string>b"), .scalar (.double ⟨0x3ff8000000000000⟩)]

/-- Two texts in front of a double. -/
def imitated : Argument :=
  .struct ⟨"(ssd)"⟩
    [.scalar (.string "a"), .scalar (.string "b"), .scalar (.double ⟨0x3ff8000000000000⟩)]

theorem toXml_unambiguous_imitation :
    imitation.WellFormed ∧ imitated.WellFormed ∧ DoublesTold imitation imitated ∧
      ∀ rest, imitation.toXml 0 ++ rest ≠ imitated.toXml 0 := by
  have formed : imitation.WellFormed := by
    have single : Grammar.stored.read "(sd)" = .ok [.struct [.basic .string, .basic .double]] := rfl
    rw [imitation, WellFormed, allWellFormed_iff]
    refine ⟨by simp, by decide, ⟨_, single⟩, ?_, ?_⟩ <;> simp [tag, wellFormed_scalar]
  have formed' : imitated.WellFormed := by
    have single : Grammar.stored.read "(ssd)" =
      .ok [.struct [.basic .string, .basic .string, .basic .double]] := rfl
    rw [imitated, WellFormed, allWellFormed_iff]
    refine ⟨by simp, by decide, ⟨_, single⟩, ?_, ?_⟩ <;> simp [tag, wellFormed_scalar]
  have told : DoublesTold imitation imitated := by
    intro x y inside inside' _
    simp [imitation, imitated, nodes, nodesOfAll] at inside inside'
    rw [inside, inside']
  refine ⟨formed, formed', told, fun rest same => ?_⟩
  obtain ⟨unambiguous, prefixFree, -⟩ := toXml_unambiguous 0 formed formed'
  rw [prefixFree rest same, String.append_empty] at same
  have impossible := unambiguous told same
  simp [imitation, imitated] at impossible

end Argument

end MessageArgs
