import MessageArgs.Command.Run
import MessageArgs.Proofs.Argument.Paths
import MessageArgs.Proofs.Command.Input
import MessageArgs.Proofs.Json.Documents

/-!
# Variants that a document asks for

A JSON value under a type has a place for each slot. `parts` lists the places right inside a place,
and `places` all those of variants, down to the contents of other variants, each with the path that
leads there. Fields that give way to others with the same key have no place.

`Built` says what is built in a place. It has one lemma for each kind of type (`built_basic` to
`built_dictionary`), and from these comes what one step of a path does (`Built.parts`): the parts of
the argument are built of the parts of the place, and a variant counts once. By induction, each
place is built where its path leads (`Built.place`), and there are as many variants as places
(`Built.layers`). `argumentOf_builds_variants` puts this together for a command line.

A variant whose content is to be a variant is special: the content is encoded first, and the encoder
takes the variant that it is given then for the one that it should build (`Built.inside`). So both
results leave such variants out.
-/

namespace MessageArgs.Command

open Argument (Step)
open Signature (ofType)

variable {config : CodecConfig} {type : CompleteType} {json : Json} {arg : Argument}

theorem argumentOf_ok_iff {text value : String} : argumentOf config text value = .ok arg ↔
    ∃ json, Json.parse? value = some json ∧ encodeJson config text json.canonical = .ok arg := by
  rw [argumentOf]
  cases Json.parse? value with
  | none => simp
  | some json => simp only [Option.some.injEq, exists_eq_left']; rfl

/-! ## Places of a document -/

/-- The fingerprint of the key that the name of a field stands for. -/
def keyName (type : BasicType) (name : String) : String :=
  match keyOf type name with
  | .ok value => (Encoding.keyScalar type value).fingerprint
  | .error _ => name

/-- The fields of an object that remain as entries of a dictionary. -/
def keptFields (config : CodecConfig) (key : BasicType) (fields : List (String × Json)) :
    List (String × Json) :=
  match config.duplicateKeys with
  | .reject => fields
  | .lastWriteWins =>
    (DuplicateKeys.collapse (fields.map fun field => (keyName key field.1, field))).map Prod.snd

/-- A place right inside another one. -/
structure Part where
  /-- How the path goes on. -/
  step : Step
  /-- The type in force. -/
  type : CompleteType
  /-- What the document holds there. -/
  json : Json

/-- The places right inside a place. -/
def parts (config : CodecConfig) (type : CompleteType) (json : Json) : List Part :=
  match type with
  | .variant =>
    match signatureOf json with
    | .error _ => []
    | .ok text =>
      match Grammar.caller.read text with
      | .ok [content] => [⟨.content text, content, contentOf json⟩]
      | _ => []
  | .array (.entry key element) =>
    match json with
    | .object fields =>
      (keptFields config key fields).map fun field =>
        ⟨.value (keyName key field.1), element, field.2⟩
    | _ => []
  | .array element =>
    match json with
    | .list items => items.mapIdx fun index item => ⟨.item index, element, item⟩
    | _ => []
  | .struct types =>
    match json with
    | .list items => (types.zip items).mapIdx fun index slot => ⟨.item index, slot.1, slot.2⟩
    | _ => []
  | _ => []

theorem mem_keptFields {key : BasicType} {fields : List (String × Json)} {field : String × Json}
    (h : field ∈ keptFields config key fields) : field ∈ fields := by
  rw [keptFields] at h
  split at h
  · exact h
  · obtain ⟨tagged, kept, rfl⟩ := List.mem_map.1 h
    obtain ⟨field, member, rfl⟩ := List.mem_map.1 (DuplicateKeys.mem_of_mem_collapse kept)
    exact member

/-- A part is the content of a variant, the value of a field, an item or a member. -/
theorem parts_cases {part : Part} (h : part ∈ parts config type json) :
    (∃ text, type = .variant ∧ signatureOf json = .ok text ∧
      Grammar.caller.read text = .ok [part.type] ∧ part.json = contentOf json) ∨
    (∃ key fields field, type = .array (.entry key part.type) ∧ json = .object fields ∧
      field ∈ fields ∧ part.json = field.2) ∨
    (∃ items, type = .array part.type ∧ part.type.tag ≠ .dictEntry ∧ json = .list items ∧
      part.json ∈ items) ∨
    (∃ types items, type = .struct types ∧ part.type ∈ types ∧ json = .list items ∧
      part.json ∈ items) := by
  unfold parts at h
  split at h
  · split at h
    · cases h
    · rename_i text found
      split at h
      · rename_i content read
        cases List.mem_singleton.1 h
        exact .inl ⟨text, rfl, found, read, rfl⟩
      · cases h
  · split at h
    · rename_i key element _ fields
      obtain ⟨field, kept, rfl⟩ := List.mem_map.1 h
      exact .inr (.inl ⟨key, fields, field, rfl, rfl, mem_keptFields kept, rfl⟩)
    · cases h
  · split at h
    · rename_i element other _ items
      obtain ⟨index, inside, rfl⟩ := List.mem_mapIdx.1 h
      refine .inr (.inr (.inl ⟨items, rfl, fun entry => ?_, rfl, List.getElem_mem inside⟩))
      cases element with
      | entry key value => exact other key value rfl
      | _ => cases entry
    · cases h
  · split at h
    · rename_i types _ items
      obtain ⟨index, inside, rfl⟩ := List.mem_mapIdx.1 h
      obtain ⟨listed, present⟩ := List.of_mem_zip (List.getElem_mem inside)
      exact .inr (.inr (.inr ⟨types, items, rfl, listed, rfl, present⟩))
    · cases h
  · cases h

theorem sizeOf_part_lt {part : Part} (h : part ∈ parts config type json) :
    sizeOf part.json < sizeOf json := by
  obtain ⟨text, -, found, -, held⟩ | ⟨key, fields, field, -, rfl, member, held⟩ |
    ⟨items, -, -, rfl, member⟩ | ⟨types, items, -, -, rfl, member⟩ := parts_cases h
  · rw [held]
    exact sizeOf_contentOf_lt found
  · rw [held]
    exact Json.sizeOf_field_lt member
  · exact Json.sizeOf_item_lt member
  · exact Json.sizeOf_item_lt member

theorem accepts_part {part : Part} (accepted : Grammar.caller.Accepts type)
    (h : part ∈ parts config type json) : Grammar.caller.Accepts part.type := by
  obtain ⟨text, -, -, read, -⟩ | ⟨key, fields, field, rfl, -⟩ | ⟨items, rfl, other, -⟩ |
    ⟨types, items, rfl, listed, -⟩ := parts_cases h
  · exact (Grammar.read_single read).2
  · exact accepted.content
  · exact accepted.element other
  · exact accepted.member listed

/-- A variant that a document asks for. -/
structure Place where
  /-- The path that leads there. -/
  path : List Step
  /-- What the document holds there. -/
  json : Json

/-- The place itself, if it asks for a variant. -/
def ownPlace : CompleteType → Json → List Place
  | .variant, json =>
    match signatureOf json with
    | .ok _ => [⟨[], json⟩]
    | .error _ => []
  | _, _ => []

/-- The same place seen from the container. -/
def Place.under (step : Step) (place : Place) : Place :=
  ⟨step :: place.path, place.json⟩

/-- The variants that a document asks for, on all levels. -/
def places (config : CodecConfig) (type : CompleteType) (json : Json) : List Place :=
  ownPlace type json ++ (parts config type json).attach.flatMap fun part =>
    (places config part.1.type part.1.json).map (.under part.1.step)
termination_by sizeOf json
decreasing_by exact sizeOf_part_lt part.2

theorem places_eq (config : CodecConfig) (type : CompleteType) (json : Json) :
    places config type json = ownPlace type json ++ (parts config type json).flatMap fun part =>
      (places config part.type part.json).map (.under part.step) := by
  rw [places, List.flatMap_subtype (g := fun part =>
    (places config part.type part.json).map (.under part.step)) fun _ _ => rfl,
    List.unattach_attach]

theorem places_basic (config : CodecConfig) (basic : BasicType) (json : Json) :
    places config (.basic basic) json = [] := by
  rw [places_eq]
  rfl

/-! ## What is built in a place -/

/-- The argument is what the encoder makes of a JSON value under a type. -/
def Built (config : CodecConfig) (type : CompleteType) (json : Json) (arg : Argument) : Prop :=
  ∃ native, valueOf config json type = .ok native ∧ Encoding.encodeAs config type native = .ok arg

theorem Built.signature (h : Built config type json arg) (accepted : Grammar.caller.Accepts type) :
    arg.signature = ofType type := by
  obtain ⟨native, -, encoded⟩ := h
  obtain ⟨conforms, rfl⟩ := (Encoding.encodeAs_iff accepted).1 encoded
  exact Encoding.signature_tree conforms accepted.ne_wildcard

theorem encodeJson_ok_iff {text : String} : encodeJson config text json = .ok arg ↔
    ∃ type, Grammar.caller.read text = .ok [type] ∧ Built config type json arg ∧
      arg.depth ≤ config.maxDepth := by
  rw [encodeJson, parseSingle_bind_ok_iff]
  refine exists_congr fun type => and_congr_right fun read => ?_
  have accepted := (Grammar.read_single read).2
  rw [Signature.single_ofType accepted]
  simp [Built, encodeSignature_ofType accepted, Encoding.encodeComplete_iff, ← exists_and_right,
    and_assoc]

theorem built_basic {basic : BasicType} (h : Built config (.basic basic) json arg) :
    ∃ value, arg = .scalar value := by
  obtain ⟨native, filled, encoded⟩ := h
  obtain ⟨atom, -, rfl⟩ := valueOf_basic_ok_iff.1 filled
  rcases Encoding.encodeAs_basic_iff.1 encoded with ⟨impossible, -⟩ | ⟨_, value, -, -, rfl⟩
  · cases impossible
  · exact ⟨value, rfl⟩

/-- A variant takes over the layer of an argument that is a variant itself. -/
theorem built_variant (h : Built config .variant json arg) :
    ∃ text content, signatureOf json = .ok text ∧
      encodeJson config text (contentOf json) = .ok content ∧ arg = .variant content.content := by
  obtain ⟨native, filled, encoded⟩ := h
  obtain ⟨text, content, found, built, rfl⟩ := valueOf_variant_ok_iff.1 filled
  obtain ⟨given, same, rfl⟩ := Encoding.encodeAs_variant_iff.1 encoded
  cases same
  exact ⟨text, content, found, built, rfl⟩

theorem built_array {element : CompleteType} (other : element.tag ≠ .dictEntry)
    (resolved : element ≠ .wildcard) (h : Built config (.array element) json arg) :
    ∃ items args signature signature', json = .list items ∧
      List.Forall₂ (fun item arg => Built config element item arg) items args ∧
      arg = .array signature signature' args := by
  obtain ⟨native, filled, encoded⟩ := h
  obtain ⟨items, natives, rfl, read, rfl⟩ := (valueOf_array_ok_iff other).1 filled
  rcases (Encoding.encodeAs_array_iff other).1 encoded with ⟨⟨⟩, -⟩ | h
  obtain ⟨_, args, ⟨⟩, each, gathered⟩ := h
  obtain ⟨-, made⟩ := (Encoding.buildArray_iff resolved).1 gathered
  obtain ⟨-, -, rfl⟩ := Encoding.ofItems_ofType_iff.1 made
  exact ⟨items, args, _, _, rfl, forall₂_comp read each, rfl⟩

/-- The natives and the arguments of the members go with the same types. -/
theorem built_struct {types : List CompleteType} (h : Built config (.struct types) json arg) :
    ∃ items args signature, json = .list items ∧
      List.Forall₂ (fun slot arg => Built config slot.1 slot.2 arg) (types.zip items) args ∧
      arg = .struct signature args := by
  obtain ⟨native, filled, encoded⟩ := h
  obtain ⟨items, natives, rfl, arity, read, rfl⟩ := valueOf_struct_ok_iff.1 filled
  rcases Encoding.encodeAs_struct_iff.1 encoded with ⟨⟨⟩, -⟩ | h
  obtain ⟨_, args, ⟨⟩, -, each, gathered⟩ := h
  obtain ⟨-, signature, -, rfl⟩ := Argument.ofMembers_iff.1 gathered
  have slots := (forall₂_zip (f := id)
    (S := fun slot origin => slot.1 = origin.1 ∧ valueOf config origin.2 origin.1 = .ok slot.2)
    arity read fun slot _ native filled => ⟨rfl, filled⟩).2
  rw [List.map_id] at slots
  refine ⟨items, args, signature, rfl, ?_, rfl⟩
  refine (forall₂_comp slots.flip each).imp ?_
  rintro slot arg ⟨⟨_, native⟩, ⟨rfl, filled⟩, encoded⟩
  exact ⟨native, filled, encoded⟩

/-- An entry that is built of a field, tagged with the fingerprint of its key. -/
def BuiltEntry (config : CodecConfig) (key : BasicType) (element : CompleteType)
    (field : String × Json) (entry : String × Argument) : Prop :=
  keyName key field.1 = entry.1 ∧ ∃ signature name content,
    entry.2 = .dictEntry signature name content ∧ name.fingerprint = entry.1 ∧
      Built config element field.2 content

theorem keptFields_eq {key : BasicType} {fields : List (String × Json)}
    (distinct : config.duplicateKeys = .reject →
      (fields.map fun field => keyName key field.1).Nodup) :
    keptFields config key fields = (DuplicateKeys.collapse
      (fields.map fun field => (keyName key field.1, field))).map Prod.snd := by
  rw [keptFields]
  split
  · rename_i strict
    rw [DuplicateKeys.collapse_of_nodup, List.map_map]
    · exact (List.map_id fields).symm
    · rw [List.map_map]
      exact distinct strict
  · rfl

theorem built_dictionary {key : BasicType} {element : CompleteType}
    (h : Built config (.array (.entry key element)) json arg) :
    ∃ fields entries signature signature', json = .object fields ∧
      List.Forall₂ (BuiltEntry config key element) (keptFields config key fields) entries ∧
      (entries.map Prod.fst).Nodup ∧ arg = .array signature signature' (entries.map Prod.snd) := by
  obtain ⟨native, filled, encoded⟩ := h
  obtain ⟨fields, pairs, rfl, read, rfl⟩ := valueOf_dictionary_ok_iff.1 filled
  rcases Encoding.encodeAs_dictionary_iff.1 encoded with ⟨⟨⟩, -⟩ | h
  obtain ⟨_, keyed, ⟨⟩, each, gathered⟩ := h
  obtain ⟨distinct, made⟩ := Encoding.buildDictionary_iff.1 gathered
  obtain ⟨-, -, rfl⟩ := Encoding.ofItems_ofType_iff.1 made
  have entries : List.Forall₂ (BuiltEntry config key element) fields keyed := by
    refine (forall₂_comp read each).imp ?_
    rintro field entry ⟨⟨name, native⟩, ⟨named, filled⟩, encoded⟩
    obtain ⟨name', content, keyEncoded, encoded, paired, tagged⟩ :=
      Encoding.encodeEntry_iff.1 encoded
    obtain ⟨-, rfl⟩ := Encoding.encodeKey_iff.1 keyEncoded
    obtain ⟨signature, -, same⟩ := Argument.ofPair_iff.1 paired
    refine ⟨?_, signature, _, content, same, tagged.symm, native, filled, encoded⟩
    rw [keyName, named, tagged]
  have names : (fields.map fun field => keyName key field.1) = keyed.map Prod.fst := by
    rw [← List.forall₂_eq_eq_eq, List.forall₂_map_left_iff, List.forall₂_map_right_iff]
    exact entries.imp fun field entry built => built.1
  have tagged : List.Forall₂ (fun field entry => field.1 = entry.1 ∧
      BuiltEntry config key element field.2 entry)
      (fields.map fun field => (keyName key field.1, field)) keyed := by
    rw [List.forall₂_map_left_iff]
    exact entries.imp fun field entry built => ⟨built.1, built⟩
  rw [← names] at distinct
  refine ⟨fields, DuplicateKeys.collapse keyed, _, _, rfl, ?_, DuplicateKeys.nodup_collapse keyed,
    rfl⟩
  rw [keptFields_eq distinct, List.forall₂_map_left_iff]
  exact (DuplicateKeys.collapse_forall₂ And.left tagged).imp fun field entry built => built.2

/-! ## One step -/

/-- A part of a place is built where the path goes on. -/
def BuiltPart (config : CodecConfig) (arg : Argument) (part : Part) (node : Argument) : Prop :=
  Built config part.type part.json node ∧ arg.part? part.step = some node

theorem forall₂_mapIdx {α : Type} {R : α → Argument → Prop} {S : Part → Argument → Prop}
    {items : List α} {args : List Argument} {place : Nat → α → Part}
    (related : List.Forall₂ R items args)
    (each : ∀ index item arg, args[index]? = some arg → R item arg → S (place index item) arg) :
    List.Forall₂ S (items.mapIdx place) args := by
  rw [List.forall₂_iff_get] at related ⊢
  obtain ⟨sizes, related⟩ := related
  refine ⟨by rw [List.length_mapIdx, sizes], fun index inside inside' => ?_⟩
  rw [List.length_mapIdx] at inside
  rw [List.get_eq_getElem, List.getElem_mapIdx]
  exact each index _ _ (List.getElem?_eq_getElem inside') (related index inside inside')

/-- A variant in a variant is built as the one inside. -/
theorem Built.inside (h : Built config .variant json arg) (found : signatureOf json = .ok "v") :
    parts config .variant json = [⟨.content "v", .variant, contentOf json⟩] ∧
      Built config .variant (contentOf json) arg := by
  obtain ⟨text, content, found', built, rfl⟩ := built_variant h
  cases found.symm.trans found'
  have read : Grammar.caller.read "v" = .ok [.variant] := rfl
  obtain ⟨type, read', built, -⟩ := encodeJson_ok_iff.1 built
  cases read.symm.trans read'
  refine ⟨by simp only [parts, found, read], ?_⟩
  obtain ⟨_, content, -, -, rfl⟩ := built_variant built
  exact built

/-- A variant of anything else has the argument that is built as its content. -/
theorem Built.variant (h : Built config .variant json arg) (other : signatureOf json ≠ .ok "v") :
    ∃ text type content, signatureOf json = .ok text ∧ Grammar.caller.read text = .ok [type] ∧
      encodeJson config text (contentOf json) = .ok content ∧
      Built config type (contentOf json) content ∧ content.signature.text = text ∧
      arg = .variant content := by
  obtain ⟨text, content, found, encoded, rfl⟩ := built_variant h
  obtain ⟨type, read, built, -⟩ := encodeJson_ok_iff.1 encoded
  obtain ⟨spelled, accepted⟩ := Grammar.read_single read
  have signature := built.signature accepted
  have plain : content.content = content := by
    refine Argument.content_eq_iff.2 fun variant => other ?_
    cases content with
    | variant inside =>
      cases Signature.ofType_inj (Encoding.ofType_variant.trans signature)
      rw [found, spelled]
      rfl
    | _ => cases variant
  rw [plain]
  exact ⟨text, type, content, found, read, encoded, built, by rw [signature, spelled]; rfl, rfl⟩

/-- The values of the entries that are built of some fields are found under their keys. -/
theorem entries_parts {key : BasicType} {element : CompleteType} {signature signature' : Signature}
    {fields : List (String × Json)} {entries : List (String × Argument)}
    (built : List.Forall₂ (BuiltEntry config key element) fields entries)
    (distinct : (entries.map Prod.fst).Nodup) :
    ∃ nodes, List.Forall₂ (fun field node =>
        BuiltPart config (.array signature signature' (entries.map Prod.snd))
          ⟨.value (keyName key field.1), element, field.2⟩ node) fields nodes ∧
      (entries.map Prod.snd).map Argument.layers = nodes.map Argument.layers := by
  have keys : ∀ entry ∈ entries, entry.2.keyName? = some entry.1 := by
    refine forall_right built ?_
    rintro field - ⟨_, _⟩ ⟨-, _, name, _, rfl, rfl, -⟩
    rfl
  have each : ∀ field ∈ fields, ∀ entry ∈ entries, BuiltEntry config key element field entry →
      ∃ node, entry.2.layers = node.layers ∧
        BuiltPart config (.array signature signature' (entries.map Prod.snd))
          ⟨.value (keyName key field.1), element, field.2⟩ node := by
    rintro field - entry member ⟨named, _, name, content, same, tagged, built⟩
    have value : Argument.valueUnder? entry.1 entry.2 = some content := by
      rw [same]
      exact if_pos tagged
    refine ⟨content, by simp [same], built, ?_⟩
    rw [named]
    exact Argument.findSome?_valueUnder? keys distinct member value
  obtain ⟨nodes, counted, found⟩ := exists_forall₂ built each
  refine ⟨nodes, found, ?_⟩
  rw [← List.forall₂_eq_eq_eq, List.forall₂_map_left_iff, List.forall₂_map_left_iff,
    List.forall₂_map_right_iff]
  exact counted

/-- The parts of a place are built as the parts of the argument, and variants are counted once for
each place. -/
theorem Built.parts (h : Built config type json arg) (accepted : Grammar.caller.Accepts type)
    (other : type = .variant → signatureOf json ≠ .ok "v") :
    ∃ nodes, List.Forall₂ (BuiltPart config arg) (parts config type json) nodes ∧
      arg.layers = (ownPlace type json).length + (nodes.map Argument.layers).sum := by
  induction accepted using Grammar.Accepts.slots with
  | basic basic =>
    obtain ⟨value, rfl⟩ := built_basic h
    exact ⟨[], .nil, by simp [ownPlace]⟩
  | variant =>
    obtain ⟨text, type, content, found, read, -, built, signature, rfl⟩ := h.variant (other rfl)
    have whole : Command.parts config .variant json = [⟨.content text, type, contentOf json⟩] := by
      simp only [Command.parts, found, read]
    rw [whole]
    refine ⟨[content], .cons ⟨built, if_pos signature⟩ .nil, ?_⟩
    simp [ownPlace, found, Nat.add_comm 1]
  | dictionary key element accepted =>
    obtain ⟨fields, entries, _, _, rfl, built, distinct, rfl⟩ := built_dictionary h
    obtain ⟨nodes, found, counted⟩ := entries_parts built distinct
    refine ⟨nodes, ?_, ?_⟩
    · show List.Forall₂ _ ((keptFields config key fields).map _) nodes
      rw [List.forall₂_map_left_iff]
      exact found
    · simp [ownPlace, counted]
  | array element accepted different inside =>
    obtain ⟨items, args, _, _, rfl, built, rfl⟩ := built_array different inside.ne_wildcard h
    have whole : Command.parts config (.array element) (.list items) =
        items.mapIdx fun index item => ⟨.item index, element, item⟩ := by
      cases element with
      | entry => exact absurd rfl different
      | _ => rfl
    rw [whole]
    refine ⟨args, forall₂_mapIdx built fun index item arg present built => ⟨built, present⟩, ?_⟩
    simp [ownPlace]
  | struct types =>
    obtain ⟨items, args, _, rfl, built, rfl⟩ := built_struct h
    refine ⟨args, forall₂_mapIdx built fun index slot arg present built => ⟨built, present⟩, ?_⟩
    simp [ownPlace]

/-! ## All places -/

/-- Each place is built somewhere in the argument, and where its path leads if the path passes no
variant whose content is to be a variant. -/
theorem Built.place (h : Built config type json arg) (accepted : Grammar.caller.Accepts type) :
    ∀ place ∈ places config type json, ∃ node, Built config .variant place.json node ∧
      node.nodes true ⊆ arg.nodes true ∧
      (.content "v" ∉ place.path → arg.at? place.path = some node) := by
  induction size : sizeOf json using Nat.strongRecOn generalizing json type arg with
  | ind size ih =>
    subst size
    intro place member
    rw [places_eq, List.mem_append] at member
    rcases member with own | below
    · cases type with
      | variant =>
        rw [ownPlace] at own
        split at own
        · cases List.mem_singleton.1 own
          exact ⟨arg, h, List.Subset.refl _, fun _ => rfl⟩
        · cases own
      | _ => cases own
    · obtain ⟨part, listed, under⟩ := List.mem_flatMap.1 below
      obtain ⟨place, inside, rfl⟩ := List.mem_map.1 under
      have smaller := sizeOf_part_lt listed
      have further := accepts_part accepted listed
      by_cases nested : type = .variant ∧ signatureOf json = .ok "v"
      · obtain ⟨rfl, found⟩ := nested
        obtain ⟨whole, built⟩ := h.inside found
        rw [whole] at listed
        cases List.mem_singleton.1 listed
        obtain ⟨node, built, subset, -⟩ := ih _ smaller built further rfl place inside
        exact ⟨node, built, subset, fun direct => absurd List.mem_cons_self direct⟩
      · obtain ⟨nodes, parts, -⟩ := h.parts accepted fun same found => nested ⟨same, found⟩
        obtain ⟨next, -, built, step⟩ := exists_right parts listed
        obtain ⟨node, built, subset, direct⟩ := ih _ smaller built further rfl place inside
        have wider := List.Subset.trans subset (Argument.nodes_subset_of_part? step)
        refine ⟨node, built, wider, fun clear => ?_⟩
        show (arg.part? part.step).bind (Argument.at? place.path) = some node
        rw [step]
        exact direct fun later => clear (List.mem_cons_of_mem _ later)

/-- If no content is to be a variant, there are as many variants as places. -/
theorem Built.layers (h : Built config type json arg) (accepted : Grammar.caller.Accepts type)
    (plain : ∀ place ∈ places config type json, signatureOf place.json ≠ .ok "v") :
    arg.layers = (places config type json).length := by
  induction size : sizeOf json using Nat.strongRecOn generalizing json type arg with
  | ind size ih =>
    subst size
    rw [places_eq, List.forall_mem_append, List.forall_mem_flatMap] at plain
    obtain ⟨nodes, parts, counted⟩ := h.parts accepted fun same found => by
      subst same
      exact plain.1 ⟨[], json⟩ (by simp [ownPlace, found]) found
    have each : nodes.map Argument.layers = (Command.parts config type json).map fun part =>
        (places config part.type part.json).length := by
      symm
      rw [← List.forall₂_eq_eq_eq, List.forall₂_map_left_iff, List.forall₂_map_right_iff]
      refine forall₂_imp_mem parts fun part listed node built => ?_
      have plainly : ∀ place ∈ places config part.type part.json,
          signatureOf place.json ≠ .ok "v" := fun place inside =>
        plain.2 part listed (place.under part.step) (List.mem_map_of_mem inside)
      exact (ih _ (sizeOf_part_lt listed) built.1 (accepts_part accepted listed) plainly rfl).symm
    rw [counted, each, places_eq, List.length_append, List.length_flatMap]
    simp only [List.length_map]

/-! ## Main result -/

/-- When a value is encoded, each variant that the document asks for is in the argument: where it
asks for content of some signature, there is a variant whose content has this signature and is what
the value there is encoded to under it. It stands where the path of the place leads. There are no
other variants. Variants that should hold variants are left out of all this; the path of another one
may pass them, but then only says that the variant is somewhere. -/
theorem argumentOf_builds_variants {text value : String}
    (h : argumentOf config text value = .ok arg) :
    ∃ json type, Json.parse? value = some json ∧ Grammar.caller.read text = .ok [type] ∧
      (∀ place ∈ places config type json.canonical, ∃ wanted, signatureOf place.json = .ok wanted ∧
        (wanted ≠ "v" → ∃ content, encodeJson config wanted (contentOf place.json) = .ok content ∧
          content.signature = ⟨wanted⟩ ∧ .variant content ∈ arg.nodes true ∧
          (.content "v" ∉ place.path → arg.at? place.path = some (.variant content)))) ∧
      ((∀ place ∈ places config type json.canonical, signatureOf place.json ≠ .ok "v") →
        arg.layers = (places config type json.canonical).length) := by
  obtain ⟨json, parsed, encoded⟩ := argumentOf_ok_iff.1 h
  obtain ⟨type, read, built, -⟩ := encodeJson_ok_iff.1 encoded
  have accepted := (Grammar.read_single read).2
  refine ⟨json, type, parsed, read, fun place member => ?_, built.layers accepted⟩
  obtain ⟨node, built, subset, direct⟩ := built.place accepted place member
  obtain ⟨wanted, _, found, -, -⟩ := built_variant built
  refine ⟨wanted, found, fun other => ?_⟩
  obtain ⟨_, _, content, found', -, encoded, -, signature, rfl⟩ :=
    built.variant fun nested => other (Except.ok.inj (found.symm.trans nested))
  cases found.symm.trans found'
  exact ⟨content, encoded, Signature.eq_iff.2 signature, subset (Argument.mem_nodes_self _), direct⟩

/-- A variant as a document writes it. -/
def variantJson (text : String) (value : Json) : Json :=
  .object [("signature", .string text), ("value", value)]

/-- A text that is written for a document stands for what the document does. -/
theorem argumentOf_text (config : CodecConfig) (text : String) {json : Json}
    (reproduced : json.Reproduced) (shallow : json.nesting ≤ Json.maxNesting) :
    argumentOf config text json.text = encodeJson config text json.canonical := by
  rw [argumentOf, Json.parse?_text reproduced shallow]
  rfl

/-- A variant in a struct in a variant in a dictionary. -/
theorem argumentOf_builds_variants_dictionary :
    let held : Json := variantJson "(iv)"
      (.list [.number (.integer 1), variantJson "b" (.bool true)])
    let json : Json := .object [("on", held)]
    let content : Argument :=
      .struct ⟨"(iv)"⟩ [.scalar (.int32 1), .variant (.scalar (.bool true))]
    let arg : Argument := .array ⟨"\x7bsv\x7d"⟩ ⟨"a\x7bsv\x7d"⟩
      [.dictEntry ⟨"\x7bsv\x7d"⟩ (.string "on") (.variant content)]
    argumentOf .standard "a\x7bsv\x7d" json.text = .ok arg ∧
      encodeJson .standard "(iv)" (contentOf held) = .ok content ∧
      arg.at? [.value "s:on"] = some (.variant content) ∧ arg.layers = 2 := by
  intro held json content arg
  have one : (Json.NumberValue.integer 1).Reproduced := Json.reproduced_natural (n := 1) (by decide)
  have reproduced : json.Reproduced := ⟨⟨trivial, ⟨one, ⟨trivial, trivial, trivial⟩, trivial⟩,
    trivial⟩, trivial⟩
  have whole : encodeJson .standard "a\x7bsv\x7d" json.canonical = .ok arg := by
    simp only [json, held]
    rfl
  have encoded : argumentOf .standard "a\x7bsv\x7d" json.text = .ok arg :=
    (argumentOf_text .standard _ reproduced (by decide)).trans whole
  obtain ⟨_, _, parsed, read, placed, counted⟩ := argumentOf_builds_variants encoded
  cases (Json.parse?_text reproduced (by decide)).symm.trans parsed
  have type : Grammar.caller.read "a\x7bsv\x7d" = .ok [.array (.entry .string .variant)] := rfl
  cases type.symm.trans read
  have bool : places .standard .variant (variantJson "b" (.bool true)) =
      [⟨[], variantJson "b" (.bool true)⟩] := by
    have inside : parts .standard .variant (variantJson "b" (.bool true)) =
        [⟨.content "b", .basic .bool, .bool true⟩] := rfl
    rw [places_eq, inside, List.flatMap_singleton, places_basic]
    rfl
  have asked : places .standard (.array (.entry .string .variant)) json.canonical =
      [⟨[.value "s:on"], held⟩,
        ⟨[.value "s:on", .content "(iv)", .item 1], variantJson "b" (.bool true)⟩] := by
    have first : parts .standard (.array (.entry .string .variant)) json.canonical =
        [⟨.value "s:on", .variant, held⟩] := rfl
    have second : parts .standard .variant held = [⟨.content "(iv)",
        .struct [.basic .int32, .variant], contentOf held⟩] := rfl
    have third : parts .standard (.struct [.basic .int32, .variant]) (contentOf held) =
        [⟨.item 0, .basic .int32, .number (.integer 1)⟩,
          ⟨.item 1, .variant, variantJson "b" (.bool true)⟩] := rfl
    rw [places_eq, first, List.flatMap_singleton, places_eq, second, List.flatMap_singleton,
      places_eq, third, List.flatMap_cons, List.flatMap_singleton, places_basic, bool]
    rfl
  rw [asked] at placed counted
  obtain ⟨_, found, built⟩ := placed ⟨[.value "s:on"], held⟩ List.mem_cons_self
  have wanted : signatureOf held = .ok "(iv)" := rfl
  cases wanted.symm.trans found
  obtain ⟨_, inside, -, -, direct⟩ := built (by decide)
  have made : encodeJson .standard "(iv)" (contentOf held) = .ok content := by
    simp only [held]
    rfl
  cases made.symm.trans inside
  refine ⟨encoded, made, direct (by simp), counted fun place member => ?_⟩
  rcases List.mem_cons.1 member with rfl | member
  · rw [wanted]
    simp
  · rw [List.mem_singleton.1 member]
    exact fun same => absurd (Except.ok.inj same) (by decide)

/-- A variant that is the content of a variant is not built, and neither is a value that gives way
to another one with the same key. -/
theorem variants_dropped :
    let nested : Json := variantJson "v" (variantJson "i" (.number (.integer 1)))
    let arg : Argument := .variant (.scalar (.int32 1))
    let lenient : CodecConfig := { duplicateKeys := .lastWriteWins }
    let repeated : Json := .object [(" 1", variantJson "i" (.number (.integer 2))),
      ("1", variantJson "i" (.number (.integer 3)))]
    let dict : Argument := .array ⟨"\x7biv\x7d"⟩ ⟨"a\x7biv\x7d"⟩
      [.dictEntry ⟨"\x7biv\x7d"⟩ (.int32 1) (.variant (.scalar (.int32 3)))]
    (argumentOf .standard "v" nested.text = .ok arg ∧ arg.layers = 1 ∧
      ∀ content, .variant content ∈ arg.nodes true → content.signature ≠ ⟨"v"⟩) ∧
    argumentOf lenient "a\x7biv\x7d" repeated.text = .ok dict ∧ dict.layers = 1 ∧
      encodeJson lenient "i" (.number (.integer 2)) = .ok (.scalar (.int32 2)) ∧
      .variant (.scalar (.int32 2)) ∉ dict.nodes true := by
  intro nested arg lenient repeated dict
  have small : ∀ n : Nat, n < 4 → (Json.NumberValue.integer n).Reproduced := fun n small =>
    Json.reproduced_natural (Nat.lt_trans small (by decide))
  have nestedReproduced : nested.Reproduced :=
    ⟨trivial, ⟨trivial, small 1 (by decide), trivial⟩, trivial⟩
  have repeatedReproduced : repeated.Reproduced :=
    ⟨⟨trivial, small 2 (by decide), trivial⟩, ⟨trivial, small 3 (by decide), trivial⟩, trivial⟩
  refine ⟨⟨?_, rfl, ?_⟩, ?_, rfl, rfl, ?_⟩
  · exact (argumentOf_text .standard _ nestedReproduced (by decide)).trans rfl
  · intro content member
    have nodes : arg.nodes true = [arg, .scalar (.int32 1)] := by
      simp only [arg, Argument.nodes]
      rfl
    rw [nodes, List.mem_cons, List.mem_singleton] at member
    obtain same | ⟨⟨⟩⟩ := member
    rw [Argument.variant.inj same]
    decide
  · refine (argumentOf_text lenient _ repeatedReproduced (by decide)).trans ?_
    simp only [lenient, repeated]
    rfl
  · simp [dict, Argument.nodes, Argument.nodesOfAll]

end MessageArgs.Command
