import TypedCbor.Proofs.RoundTrip.Compounds
import TypedCbor.Proofs.Shape

namespace TypedCbor

-- A configuration reads what another writes: what is registered is the same and made as it should be,
-- and no tags are asked for that are not written.
structure Config.Understands (target source : Config) : Prop where
  same : target.descriptors = source.descriptors
  proper : ∀ descriptor ∈ source.descriptors, descriptor.Proper
  keyTags : target.verifyKeyTags = true → source.writeKeyTags = true
  valueTags : target.verifyValueTags = true → source.writeValueTags = true

-- The same with objects: names and labels stand for one element each, and nothing is asked of markers.
structure Config.Accords (target source : Config) : Prop where
  same : target.descriptors = source.descriptors
  keyed : ∀ descriptor ∈ source.descriptors, descriptor.kind = .keyed
  distinct : ∀ descriptor ∈ source.descriptors, (Shape.described descriptor).Distinct
  keyTags : target.verifyKeyTags = true → source.writeKeyTags = true
  valueTags : target.verifyValueTags = true → source.writeValueTags = true

theorem Config.shape_congr {source target : Config} (same : target.descriptors = source.descriptors)
    (name : String) (kind : StructureKind) (fields : List String) :
    target.shape name kind fields = source.shape name kind fields := by
  unfold Config.shape
  rw [same]

namespace Config.Accords

variable {source target : Config}

theorem regular (accords : target.Accords source) : target.Regular := by
  apply Config.regular_of_kind
  rw [accords.same]
  exact accords.keyed

theorem shape (accords : target.Accords source) (name : String) (kind : StructureKind)
    (fields : List String) : target.shape name kind fields = source.shape name kind fields :=
  Config.shape_congr accords.same name kind fields

end Config.Accords

namespace Config.Understands

variable {source target : Config}

theorem accords (understands : target.Understands source) : target.Accords source where
  same := understands.same
  keyed := fun descriptor member => (understands.proper descriptor member).keyed
  distinct := fun descriptor member =>
    ⟨(understands.proper descriptor member).names, (understands.proper descriptor member).labels⟩
  keyTags := understands.keyTags
  valueTags := understands.valueTags

theorem object (understands : target.Understands source) (name : String) (kind : StructureKind)
    (fields : List String) (field : String) :
    ((source.shape name kind fields).elementNamed field).object = false :=
  have plain : source.WithoutObjects := fun descriptor member =>
    (understands.proper descriptor member).plain
  plain.elementNamed name kind fields field

end Config.Understands

namespace Item

theorem tagNumbers_tagged (tags : List UInt64) (item : Item) :
    (item.tagged tags).tagNumbers = tags ++ item.tagNumbers := by
  rw [tagNumbers, tagged, tags_mk, List.map_append, Head.map_number_shortest]
  rfl

theorem Readable.of_tagged {tags : List UInt64} {item : Item} (readable : (item.tagged tags).Readable) :
    item.Readable := by
  have formed := readable.formed
  refine ⟨.intro ⟨fun tag member => ?_, formed.head, formed.chunks, formed.simple⟩ fun child member => ?_, ?_⟩
  · exact formed.tags tag (List.mem_append_right _ member)
  · exact readable.wellFormed.child member
  · have small := readable.small
    rw [Item.bytes_eq, tagBytes, tagged, Item.tags_mk, List.flatMap_append] at small
    rw [Item.bytes_eq, tagBytes]
    simp only [List.length_append, body_mk] at small ⊢
    omega

theorem key_ofSigned (label : Int64) : (ofSigned label).body.key = .ok (.label label.toInt) := by
  have number := integer_ofSigned label
  unfold ofSigned at number ⊢
  split at number
  · rename_i positive
    rw [if_pos positive]
    exact congrArg (Key.label <$> ·) number
  · rename_i negative
    rw [if_neg negative]
    exact congrArg (Key.label <$> ·) number

theorem key_ofText (name : String) : (ofText name).body.key = .ok (.name name) := by
  simp only [ofText, body_mk, Body.key, StringForm.content_whole, Payload.text, Bytes.toText?_ofText]
  rfl

end Item

namespace ItemReader

variable {source target : Config} {shape : Shape}

theorem exists_ownTags (valueTags : target.verifyValueTags = true → source.writeValueTags = true)
    (element : Element) (item : Item) :
    ∃ own, ownTags target (some element) (element.valueItem source item).tagNumbers = .ok own ∧
      item.tagNumbers <:+ own := by
  have numbers : (element.valueItem source item).tagNumbers =
      (if source.writeValueTags then element.valueTags else []) ++ item.tagNumbers :=
    Item.tagNumbers_tagged _ item
  rw [numbers, ownTags]
  cases verify : target.verifyValueTags with
  | true =>
    rw [valueTags verify, if_pos rfl, if_pos rfl, List.isPrefixOf?_eq_some_iff_append_eq.mpr rfl]
    exact ⟨_, rfl, List.suffix_refl _⟩
  | false => exact ⟨_, rfl, List.suffix_append _ _⟩

theorem announced_keyItem (accords : target.Accords source) (distinct : shape.Distinct)
    {element : Element} (member : element ∈ shape.elements) :
    ∃ index, announced target shape (element.keyItem source) = .ok (some index) ∧
      shape.element index = element := by
  obtain ⟨index, here, named, labelled⟩ := distinct.found member
  refine ⟨index, ?_, here⟩
  have resolved : ∃ key, (element.keyItem source).body.key = .ok key ∧ key.resolve shape = some index := by
    unfold Element.keyItem
    rw [Item.body_tagged]
    cases label : element.label with
    | none => exact ⟨_, Item.key_ofText _, named⟩
    | some label' =>
      dsimp only
      split
      · refine ⟨_, Item.key_ofSigned label', ?_⟩
        rw [Key.resolve, if_pos ⟨label'.le_toInt, label'.toInt_le⟩, Int64.ofInt_toInt]
        exact labelled label' label
      · exact ⟨_, Item.key_ofText _, named⟩
  rcases resolved with ⟨key, read, found⟩
  have numbers : (element.keyItem source).tagNumbers = if source.writeKeyTags then element.keyTags else [] := by
    refine (Item.tagNumbers_tagged _ _).trans ?_
    apply List.append_right_eq_self.mpr
    cases element.label with
    | none => rfl
    | some label =>
      dsimp only
      split
      · unfold Item.ofSigned
        split <;> rfl
      · rfl
  have accepted : Decoder.acceptsKeyTags target element (element.keyItem source).tagNumbers = true := by
    rw [Decoder.acceptsKeyTags, numbers]
    cases verify : target.verifyKeyTags with
    | false => rfl
    | true => rw [accords.keyTags verify, if_pos rfl, beq_self_eq_true, Bool.or_true]
  rw [announced, read, ok_bind, found]
  dsimp only
  rw [here, if_pos accepted]
  rfl

theorem announced_named {name : String} (unlisted : shape.indexOfName name = none) :
    announced target shape ((Element.named name).keyItem source) =
      if target.ignoreUnknownKeys then .ok none else .error (.unknownKey (.name name)) := by
  have key : ((Element.named name).keyItem source).body.key = .ok (.name name) := Item.key_ofText name
  rw [announced, key, ok_bind, Key.resolve, unlisted]
  rfl

end ItemReader

open ItemReader

variable {source target : Config} {shape : Shape}

def Value.ReturnsIn (source : Config) (element : Element) (read : ItemReader Value)
    (value : Value) : Prop :=
  ∀ item, value.item source element.markers = .ok item → item.Readable →
    ∃ decoded, read.on (Option.some element) (element.valueItem source item) = .ok decoded ∧
      decoded.canonical = value.canonical

-- It comes back from its place where reader and writer take it for that of different elements.
def Value.ReturnsAt (source : Config) (writer reader : Element) (read : ItemReader Value)
    (value : Value) : Prop :=
  ∀ item, value.item source writer.markers = .ok item → item.Readable →
    ∃ decoded, read.on (Option.some reader) (writer.valueItem source item) = .ok decoded ∧
      decoded.canonical = value.canonical

theorem Value.Returns.inElement {value : Value} {read : ItemReader Value}
    (returns : value.Returns source target read) (accords : target.Accords source) {element : Element}
    (ordinary : element.object = false) : value.ReturnsIn source element read := by
  intro item made readable
  obtain ⟨own, taken, behind⟩ := exists_ownTags accords.valueTags element item
  exact returns _ item ordinary made readable (Option.some element) _ own ordinary taken behind

theorem Config.writes_iff (keyed : ∀ descriptor ∈ source.descriptors, descriptor.kind = .keyed)
    (element : Element) (value : Value) :
    source.Writes element value ↔ ∃ item, value.item source element.markers = .ok item := by
  unfold Config.Writes
  rw [Encoder.encode_written keyed]
  constructor
  · rintro ⟨output, written⟩
    obtain ⟨item, made, -⟩ := map_eq_ok.mp written
    exact ⟨item, made⟩
  · rintro ⟨item, made⟩
    exact ⟨item.wire, by rw [made]; rfl⟩

theorem exists_fieldItems (keyed : ∀ descriptor ∈ source.descriptors, descriptor.kind = .keyed)
    {values : List (String × Value)}
    (written : ∀ entry ∈ values, source.Writes (shape.elementNamed entry.1) entry.2) :
    ∃ kept, fieldItems source shape values = .ok kept := by
  induction values with
  | nil => exact ⟨[], rfl⟩
  | cons entry values ih =>
    rcases entry with ⟨name, value⟩
    obtain ⟨here, others⟩ := List.forall_mem_cons.mp written
    obtain ⟨item, made⟩ := (Config.writes_iff keyed _ _).mp here
    obtain ⟨kept, rest⟩ := ih others
    rw [fieldItems, made, ok_bind, rest]
    exact ⟨_, rfl⟩

theorem Element.leavesOut_iff (keyed : ∀ descriptor ∈ source.descriptors, descriptor.kind = .keyed)
    (element : Element) {value : Value} {item : Item} (found : value.item source element.markers = .ok item) :
    element.leavesOut source item = true ↔ source.LeavesOut element value := by
  have written : value.encode source { markers := element.markers } = .ok { output := item.wire } := by
    rw [Encoder.encode_written keyed, found]
    rfl
  unfold Element.leavesOut Config.LeavesOut
  rw [written]
  cases element.declaredDefault with
  | none => simp
  | some standard =>
    cases source.encodeDefaults with
    | true => simp
    | false => simp [Encoder.mk.injEq]

theorem Config.not_leavesOut {config : Config} {element : Element} (required : element.declaredDefault = none)
    (value : Value) : ¬config.LeavesOut element value := by
  rintro ⟨-, standard, declared, -⟩
  rw [required] at declared
  cases declared

theorem fieldItems_congr {shape' : Shape} (same : shape.elementNamed = shape'.elementNamed)
    (values : List (String × Value)) : fieldItems source shape values = fieldItems source shape' values := by
  induction values with
  | nil => rfl
  | cons entry values ih =>
    rcases entry with ⟨name, value⟩
    rw [fieldItems, fieldItems, same, ih]

theorem fieldItems_cons_cases (keyed : ∀ descriptor ∈ source.descriptors, descriptor.kind = .keyed)
    {name : String} {value : Value} {values : List (String × Value)} {kept : List (Element × Item)}
    (found : fieldItems source shape ((name, value) :: values) = .ok kept) :
    ∃ item others, value.item source (shape.elementNamed name).markers = .ok item ∧
      fieldItems source shape values = .ok others ∧
      (source.LeavesOut (shape.elementNamed name) value ∧ kept = others ∨
        ¬source.LeavesOut (shape.elementNamed name) value ∧
          kept = (shape.elementNamed name, item) :: others) := by
  obtain ⟨item, made, found⟩ := bind_eq_ok.mp found
  obtain ⟨others, rest, same⟩ := bind_eq_ok.mp found
  refine ⟨item, others, made, rest, ?_⟩
  rw [← Element.leavesOut_iff keyed _ made]
  by_cases left : (shape.elementNamed name).leavesOut source item = true
  · rw [if_pos left] at same
    cases same
    exact .inl ⟨left, rfl⟩
  · rw [if_neg left] at same
    cases same
    exact .inr ⟨left, rfl⟩

theorem fieldItems_of_leftOut (keyed : ∀ descriptor ∈ source.descriptors, descriptor.kind = .keyed)
    {values : List (String × Value)}
    (all : ∀ entry ∈ values, source.LeavesOut (shape.elementNamed entry.1) entry.2)
    {kept : List (Element × Item)} (found : fieldItems source shape values = .ok kept) : kept = [] := by
  induction values generalizing kept with
  | nil =>
    cases found
    rfl
  | cons entry values ih =>
    rcases entry with ⟨name, value⟩
    obtain ⟨here, all⟩ := List.forall_mem_cons.mp all
    obtain ⟨item, others, -, rest, ⟨-, rfl⟩ | ⟨written, -⟩⟩ := fieldItems_cons_cases keyed found
    · exact ih all rest
    · exact absurd here written

namespace Field

variable {field : Field Ty} {placed : List (String × Value)} {value : Value}

def reader (config : Config) (field : Field Ty) : FieldReader (ItemReader Value) :=
  ⟨field.name, field.type.ofItem config, field.fallback, field.type.isOption⟩

theorem complete_found (found : placed.lookup field.name = some value) :
    Decoder.FieldReader.complete placed (field.reader target) = .ok (field.name, value) := by
  unfold Decoder.FieldReader.complete reader
  dsimp only
  rw [found]

theorem complete_missing (missing : placed.lookup field.name = none)
    (standsIn : field.standIn false = some value) :
    Decoder.FieldReader.complete placed (field.reader target) = .ok (field.name, value) := by
  unfold Decoder.FieldReader.complete reader
  dsimp only
  rw [missing]
  unfold standIn at standsIn
  split at standsIn
  · rename_i standard fallback
    rw [fallback, standsIn]
  · rename_i fallback
    rw [fallback]
    by_cases optional : field.type.isOption = true
    · rw [optional] at standsIn ⊢
      cases standsIn
      rfl
    · rw [Bool.not_eq_true] at optional
      rw [optional] at standsIn
      cases standsIn

theorem standIn_of_complete (missing : placed.lookup field.name = none)
    (completed : Decoder.FieldReader.complete placed (field.reader target) = .ok (field.name, value)) :
    field.standIn false = some value := by
  unfold Decoder.FieldReader.complete reader at completed
  dsimp only at completed
  rw [missing] at completed
  unfold standIn
  cases fallback : field.fallback with
  | some standard =>
    rw [fallback] at completed
    cases completed
    rfl
  | none =>
    rw [fallback] at completed
    cases optional : field.type.isOption with
    | true =>
      rw [optional] at completed
      cases completed
      rfl
    | false =>
      rw [optional] at completed
      cases completed

theorem fallback_of_standIn (standsIn : field.standIn true = some value) :
    field.fallback = some value := by
  unfold standIn at standsIn
  split at standsIn
  · rename_i standard fallback
    rw [fallback, standsIn]
  · cases standsIn

end Field

theorem find?_itemFields {fields : List (Field Ty)} (distinct : (fields.map Field.name).Nodup)
    {field : Field Ty} (member : field ∈ fields) :
    (itemFields target fields).find? (·.name == field.name) = some (field.reader target) := by
  induction fields with
  | nil => cases member
  | cons first fields ih =>
    obtain ⟨fresh, distinct⟩ := List.nodup_cons.mp distinct
    rw [itemFields, List.find?_cons]
    rcases List.mem_cons.mp member with rfl | later
    · dsimp only
      rw [beq_self_eq_true]
      rfl
    · have other : first.name ≠ field.name := by
        intro same
        exact fresh (List.mem_map.mpr ⟨field, later, same.symm⟩)
      dsimp only
      rw [beq_eq_false_iff_ne.mpr other]
      exact ih distinct later

-- Nothing in the document tells what the field holds: it is left out, or its key stands for nothing.
def Untold (source : Config) (shape : Shape) (entry : String × Value) : Prop :=
  source.LeavesOut (shape.elementNamed entry.1) entry.2 ∨ shape.indexOfName entry.1 = none

-- What is known of a field once all entries are placed: its value, or that it was not told.
structure Settled (source : Config) (shape : Shape) (placed : List (String × Value))
    (entry : String × Value) : Prop where
  missing : Untold source shape entry → placed.lookup entry.1 = none
  found : ¬Untold source shape entry →
    ∃ value, placed.lookup entry.1 = some value ∧ value.canonical = entry.2.canonical

-- A field that can be placed: it has a reader that gives its value back, and an element of its name.
structure Placeable (source target : Config) (shape : Shape) (readers : List (FieldReader (ItemReader Value)))
    (entry : String × Value) : Prop where
  reader : ∃ reader, readers.find? (·.name == entry.1) = some reader ∧
    entry.2.ReturnsIn source (shape.elementNamed entry.1) reader.read
  listed : shape.elementNamed entry.1 ∈ shape.elements
  named : (shape.elementNamed entry.1).name = entry.1

theorem placeEntry_returns (accords : target.Accords source) (distinct : shape.Distinct)
    {readers : List (FieldReader (ItemReader Value))} {name : String} {value : Value}
    (placeable : Placeable source target shape readers (name, value)) {item : Item}
    (made : value.item source (shape.elementNamed name).markers = .ok item) (readable : item.Readable)
    {seen : List (String × Value)} (fresh : seen.lookup name = none) :
    ∃ decoded, placeEntry target shape readers seen ((shape.elementNamed name).keyItem source,
        (shape.elementNamed name).valueItem source item) = .ok ((name, decoded) :: seen) ∧
      decoded.canonical = value.canonical := by
  rcases placeable with ⟨⟨reader, found, returns⟩, listed, named⟩
  obtain ⟨index, announces, here⟩ := announced_keyItem accords distinct listed
  obtain ⟨decoded, read, same⟩ := returns item made readable
  refine ⟨decoded, ?_, same⟩
  have known : shape.elementName index = name := by rw [Shape.elementName, here, named]
  rw [placeEntry, announces, ok_bind]
  dsimp only
  rw [here, place, known, found]
  dsimp only
  rw [fresh, if_neg (by decide), read]
  rfl

theorem placeEntry_unlisted {readers : List (FieldReader (ItemReader Value))} {name : String}
    (unlisted : shape.indexOfName name = none) (seen : List (String × Value)) (item : Item) :
    placeEntry target shape readers seen ((shape.elementNamed name).keyItem source, item) =
      if target.ignoreUnknownKeys then .ok seen else .error (.unknownKey (.name name)) := by
  have plain : shape.elementNamed name = .named name := by rw [Shape.elementNamed, unlisted]
  rw [placeEntry, plain, announced_named unlisted]
  split <;> rfl

-- What placing entries makes of what was placed before them: names of no entry are as they were, and
-- each entry is settled.
structure EntriesPlaced (source : Config) (shape : Shape) (values seen placed : List (String × Value)) : Prop where
  frame : ∀ name ∉ values.map Prod.fst, placed.lookup name = seen.lookup name
  settled : ∀ entry ∈ values, Settled source shape placed entry

namespace EntriesPlaced

variable {values seen placed : List (String × Value)}

theorem passed (rest : EntriesPlaced source shape values seen placed) {entry : String × Value}
    (unique : entry.1 ∉ values.map Prod.fst) (fresh : seen.lookup entry.1 = none)
    (untold : Untold source shape entry) : EntriesPlaced source shape (entry :: values) seen placed where
  frame := fun name outside => rest.frame name fun inside => outside (List.mem_cons_of_mem _ inside)
  settled := List.forall_mem_cons.mpr
    ⟨⟨fun _ => (rest.frame _ unique).trans fresh, fun told => absurd untold told⟩, rest.settled⟩

theorem taken {name : String} {value decoded : Value}
    (rest : EntriesPlaced source shape values ((name, decoded) :: seen) placed)
    (unique : name ∉ values.map Prod.fst) (told : ¬Untold source shape (name, value))
    (canonical : decoded.canonical = value.canonical) :
    EntriesPlaced source shape ((name, value) :: values) seen placed where
  frame := fun other outside => by
    rw [List.map_cons, List.mem_cons, not_or] at outside
    rw [rest.frame other outside.2, List.lookup_cons, beq_eq_false_iff_ne.mpr outside.1]
  settled := by
    refine List.forall_mem_cons.mpr
      ⟨⟨fun untold => absurd untold told, fun _ => ⟨decoded, ?_, canonical⟩⟩, rest.settled⟩
    rw [rest.frame name unique, List.lookup_cons, beq_self_eq_true]

end EntriesPlaced

theorem Placeable.told {readers : List (FieldReader (ItemReader Value))} {entry : String × Value}
    (placeable : Placeable source target shape readers entry)
    (written : ¬source.LeavesOut (shape.elementNamed entry.1) entry.2) : ¬Untold source shape entry := by
  rintro (left | unlisted)
  · exact written left
  · exact Shape.indexOfName_eq_none_iff.mp unlisted (List.mem_map.mpr ⟨_, placeable.listed, placeable.named⟩)

theorem placeEntries_return (accords : target.Accords source) (distinct : shape.Distinct)
    {readers : List (FieldReader (ItemReader Value))} {values : List (String × Value)}
    (each : ∀ entry ∈ values, Placeable source target shape readers entry ∨
      shape.indexOfName entry.1 = none ∧ target.ignoreUnknownKeys = true)
    (names : (values.map Prod.fst).Nodup) {kept : List (Element × Item)}
    (found : fieldItems source shape values = .ok kept) (readable : ∀ pair ∈ kept, pair.2.Readable)
    {seen : List (String × Value)} (fresh : ∀ entry ∈ values, seen.lookup entry.1 = none) :
    ∃ placed, placeEntries target shape readers seen
        (kept.map fun pair => (pair.1.keyItem source, pair.1.valueItem source pair.2)) = .ok placed ∧
      EntriesPlaced source shape values seen placed := by
  induction values generalizing kept seen with
  | nil =>
    cases found
    exact ⟨seen, rfl, fun _ _ => rfl, fun _ member => absurd member List.not_mem_nil⟩
  | cons entry values ih =>
    rcases entry with ⟨name, value⟩
    obtain ⟨here, each⟩ := List.forall_mem_cons.mp each
    obtain ⟨unique, names⟩ := List.nodup_cons.mp names
    obtain ⟨freshHere, fresh⟩ := List.forall_mem_cons.mp fresh
    obtain ⟨item, others, made, rest, ⟨left, rfl⟩ | ⟨written, rfl⟩⟩ := fieldItems_cons_cases accords.keyed found
    · obtain ⟨placed, done, entries⟩ := ih each names rest readable fresh
      exact ⟨placed, done, entries.passed unique freshHere (.inl left)⟩
    · obtain ⟨itemReadable, readable⟩ := List.forall_mem_cons.mp readable
      rcases here with placeable | ⟨unlisted, ignoring⟩
      · obtain ⟨decoded, first, canonical⟩ :=
          placeEntry_returns accords distinct placeable made itemReadable freshHere
        have still : ∀ entry ∈ values, List.lookup entry.1 ((name, decoded) :: seen) = none := by
          intro entry member
          have other : entry.1 ≠ name := by
            intro same
            exact unique (List.mem_map.mpr ⟨entry, member, same⟩)
          rw [List.lookup_cons, beq_eq_false_iff_ne.mpr other]
          exact fresh entry member
        obtain ⟨placed, done, entries⟩ := ih each names rest readable still
        refine ⟨placed, ?_, entries.taken unique (placeable.told written) canonical⟩
        rw [List.map_cons, placeEntries, List.foldlM_cons, first, ok_bind]
        exact done
      · obtain ⟨placed, done, entries⟩ := ih each names rest readable fresh
        refine ⟨placed, ?_, entries.passed unique freshHere (.inr unlisted)⟩
        rw [List.map_cons, placeEntries, List.foldlM_cons, placeEntry_unlisted unlisted, if_pos ignoring,
          ok_bind]
        exact done

theorem ignoring_of_placeEntries {readers : List (FieldReader (ItemReader Value))}
    {values : List (String × Value)} {kept : List (Element × Item)}
    (keyed : ∀ descriptor ∈ source.descriptors, descriptor.kind = .keyed)
    (found : fieldItems source shape values = .ok kept) {seen placed : List (String × Value)}
    (done : placeEntries target shape readers seen
      (kept.map fun pair => (pair.1.keyItem source, pair.1.valueItem source pair.2)) = .ok placed)
    {entry : String × Value} (member : entry ∈ values)
    (written : ¬source.LeavesOut (shape.elementNamed entry.1) entry.2)
    (unlisted : shape.indexOfName entry.1 = none) : target.ignoreUnknownKeys = true := by
  induction values generalizing kept seen with
  | nil => cases member
  | cons first values ih =>
    rcases first with ⟨name, value⟩
    obtain ⟨item, others, made, rest, ⟨left, rfl⟩ | ⟨-, rfl⟩⟩ := fieldItems_cons_cases keyed found
    · rcases List.mem_cons.mp member with rfl | later
      · exact absurd left written
      · exact ih rest done later
    · rw [List.map_cons, placeEntries, List.foldlM_cons] at done
      obtain ⟨between, here, done⟩ := bind_eq_ok.mp done
      rcases List.mem_cons.mp member with rfl | later
      · rw [placeEntry_unlisted unlisted] at here
        by_contra strict
        rw [if_neg strict] at here
        cases here
      · exact ih rest done later

section
variable {fields : List (Field Ty)} {values : List (String × Value)}

theorem names_of_holdFields {record : String → List (Field Ty) → List (String × Value) → Prop}
    {present : Value → Prop} (each : Ty.HoldFields record present fields values) :
    values.map Prod.fst = fields.map Field.name := by
  induction fields generalizing values with
  | nil =>
    cases each
    rfl
  | cons field fields ih =>
    cases each with
    | cons here others => rw [List.map_cons, List.map_cons, ih others]

theorem holds_of_holdFields {record : String → List (Field Ty) → List (String × Value) → Prop}
    {present : Value → Prop} (each : Ty.HoldFields record present fields values) :
    ∀ pair ∈ fields.zip values, pair.1.type.Holds record present pair.2.2 := by
  induction fields generalizing values with
  | nil => exact fun _ member => absurd member List.not_mem_nil
  | cons field fields ih =>
    cases each with
    | cons here others => exact List.forall_mem_cons.mpr ⟨here, ih others⟩

theorem exists_field (names : values.map Prod.fst = fields.map Field.name) {entry : String × Value}
    (member : entry ∈ values) : ∃ field ∈ fields, field.name = entry.1 ∧ (field, entry) ∈ fields.zip values := by
  induction fields generalizing values with
  | nil =>
    rw [List.map_eq_nil_iff.mp names] at member
    cases member
  | cons field fields ih =>
    cases values with
    | nil => cases member
    | cons first values =>
      obtain ⟨same, names⟩ := List.cons.inj names
      rcases List.mem_cons.mp member with rfl | later
      · exact ⟨field, List.mem_cons_self, same.symm, List.mem_cons_self⟩
      · obtain ⟨other, present, named, paired⟩ := ih names later
        exact ⟨other, List.mem_cons_of_mem _ present, named, List.mem_cons_of_mem _ paired⟩

theorem name_of_mem_zip (names : values.map Prod.fst = fields.map Field.name)
    {pair : Field Ty × (String × Value)} (member : pair ∈ fields.zip values) : pair.1.name = pair.2.1 := by
  induction fields generalizing values with
  | nil => cases member
  | cons field fields ih =>
    cases values with
    | nil => cases member
    | cons first values =>
      obtain ⟨same, names⟩ := List.cons.inj names
      rcases List.mem_cons.mp member with rfl | later
      · exact same.symm
      · exact ih names later

theorem complete_iff (names : values.map Prod.fst = fields.map Field.name) (placed : List (String × Value)) :
    (∃ decoded, (itemFields target fields).mapM (Decoder.FieldReader.complete placed) = .ok decoded ∧
        Value.canonicalFields decoded = Value.canonicalFields values) ↔
      ∀ pair ∈ fields.zip values, ∃ value, Decoder.FieldReader.complete placed (pair.1.reader target) =
        .ok (pair.1.name, value) ∧ value.canonical = pair.2.2.canonical := by
  induction fields generalizing values with
  | nil =>
    rw [List.map_eq_nil_iff.mp names]
    exact ⟨fun _ _ member => absurd member List.not_mem_nil, fun _ => ⟨[], rfl, rfl⟩⟩
  | cons field fields ih =>
    cases values with
    | nil => cases names
    | cons first values =>
      rcases first with ⟨name, value⟩
      obtain ⟨same, further⟩ := List.cons.inj names
      cases same
      rw [List.zip_cons_cons, List.forall_mem_cons, ← ih further, itemFields, List.mapM_cons]
      change (∃ decoded, (Decoder.FieldReader.complete placed (field.reader target) >>= _) = _ ∧ _) ↔ _
      constructor
      · rintro ⟨decoded, done, canonicals⟩
        obtain ⟨⟨name, value'⟩, here, done⟩ := bind_eq_ok.mp done
        obtain ⟨others, rest, same⟩ := bind_eq_ok.mp done
        cases same
        obtain ⟨first, others'⟩ := List.cons.inj canonicals
        obtain ⟨rfl, canonical⟩ := Prod.mk.inj first
        exact ⟨⟨value', here, canonical⟩, others, rest, others'⟩
      · rintro ⟨⟨value', here, canonical⟩, others, rest, canonicals⟩
        refine ⟨(field.name, value') :: others, ?_, ?_⟩
        · rw [here, ok_bind, rest]
          rfl
        · rw [Value.canonicalFields, Value.canonicalFields, canonical, canonicals]

theorem complete_of_settled {field : Field Ty} {value : Value} {placed : List (String × Value)}
    (settled : Settled source shape placed (field.name, value)) :
    (∃ value', Decoder.FieldReader.complete placed (field.reader target) = .ok (field.name, value') ∧
        value'.canonical = value.canonical) ↔
      (Untold source shape (field.name, value) →
        ∃ value', field.standIn false = some value' ∧ value'.canonical = value.canonical) := by
  by_cases untold : Untold source shape (field.name, value)
  · have missing := settled.missing untold
    constructor
    · rintro ⟨value', completed, canonical⟩ -
      exact ⟨value', Field.standIn_of_complete missing completed, canonical⟩
    · intro restored
      obtain ⟨value', standsIn, canonical⟩ := restored untold
      exact ⟨value', Field.complete_missing missing standsIn, canonical⟩
  · obtain ⟨value', found, canonical⟩ := settled.found untold
    exact ⟨fun _ gone => absurd gone untold, fun _ => ⟨value', Field.complete_found found, canonical⟩⟩

end

theorem takeFields_returns (keyed : ∀ descriptor ∈ source.descriptors, descriptor.kind = .keyed)
    {fields : List (Field Ty)} {values : List (String × Value)}
    (names : values.map Prod.fst = fields.map Field.name)
    {taken : Nat}
    (returns : ∀ (index : Nat) pair, (fields.zip values)[index]? = some pair → pair.2.2.ReturnsAt source
      (shape.elementNamed pair.1.name) (shape.element (taken + index)) (pair.1.type.ofItem target))
    (restored : ∀ pair ∈ fields.zip values,
      source.LeavesOut (shape.elementNamed pair.1.name) pair.2.2 →
        ∃ value, pair.1.standIn true = some value ∧ value.canonical = pair.2.2.canonical)
    (trailing : values.Pairwise fun earlier later =>
      source.LeavesOut (shape.elementNamed earlier.1) earlier.2 →
        source.LeavesOut (shape.elementNamed later.1) later.2)
    {kept : List (Element × Item)} (found : fieldItems source shape values = .ok kept)
    (readable : ∀ pair ∈ kept, pair.2.Readable) (expected : String) :
    ∃ decoded, takeFields shape expected taken (itemFields target fields)
        (kept.map fun pair => pair.1.valueItem source pair.2) = .ok (decoded, []) ∧
      Value.canonicalFields decoded = Value.canonicalFields values := by
  induction fields generalizing values kept taken with
  | nil =>
    cases List.map_eq_nil_iff.mp names
    cases found
    exact ⟨[], rfl, rfl⟩
  | cons field fields ih =>
    cases values with
    | nil => cases names
    | cons first values =>
      rcases first with ⟨name, value⟩
      obtain ⟨same, further⟩ := List.cons.inj names
      cases same
      rw [List.zip_cons_cons] at returns restored
      obtain ⟨restoredHere, restored⟩ := List.forall_mem_cons.mp restored
      obtain ⟨trailingHere, trailing⟩ := List.pairwise_cons.mp trailing
      have later : ∀ (index : Nat) pair, (fields.zip values)[index]? = some pair →
          pair.2.2.ReturnsAt source (shape.elementNamed pair.1.name) (shape.element (taken + 1 + index))
            (pair.1.type.ofItem target) := by
        intro index pair found
        rw [Nat.add_assoc, Nat.add_comm 1]
        exact returns (index + 1) pair found
      obtain ⟨item, others, made, rest, ⟨leftOut, rfl⟩ | ⟨-, rfl⟩⟩ := fieldItems_cons_cases keyed found
      · have none := fieldItems_of_leftOut keyed (fun entry member => trailingHere entry member leftOut) rest
        subst none
        obtain ⟨decoded, done, canonicals⟩ := ih further later restored trailing rest readable
        obtain ⟨value', standsIn, canonical⟩ := restoredHere leftOut
        refine ⟨(field.name, value') :: decoded, ?_, ?_⟩
        · rw [itemFields, List.map_nil, takeFields, Field.fallback_of_standIn standsIn]
          dsimp only
          rw [List.map_nil] at done
          rw [done]
          rfl
        · rw [Value.canonicalFields, Value.canonicalFields, canonical, canonicals]
      · obtain ⟨itemReadable, readable⟩ := List.forall_mem_cons.mp readable
        obtain ⟨decoded, done, canonicals⟩ := ih further later restored trailing rest readable
        obtain ⟨value', read, canonical⟩ := returns 0 _ rfl item made itemReadable
        refine ⟨(field.name, value') :: decoded, ?_, ?_⟩
        · dsimp only [Nat.add_zero] at read ⊢
          rw [itemFields, List.map_cons, takeFields, read, ok_bind, done]
          rfl
        · rw [Value.canonicalFields, Value.canonicalFields, canonical, canonicals]

theorem names_itemFields (config : Config) (fields : List (Field Ty)) :
    (itemFields config fields).map (·.name) = fields.map Field.name := by
  induction fields with
  | nil => rfl
  | cons field fields ih => rw [itemFields, List.map_cons, List.map_cons, ih]

section
variable {name : String} {fields : List (Field Ty)} {values : List (String × Value)}
  {kept : List (Element × Item)}

theorem placeable_field (distinct : (source.recordShape name fields).Distinct)
    (unique : (fields.map Field.name).Nodup) {field : Field Ty} (member : field ∈ fields) {value : Value}
    (listed : field.name ∈ (source.recordShape name fields).elements.map Element.name)
    (returns : value.ReturnsIn source ((source.recordShape name fields).elementNamed field.name)
      (field.type.ofItem target)) :
    Placeable source target (source.recordShape name fields) (itemFields target fields)
      (field.name, value) := by
  obtain ⟨element, present, named⟩ := List.mem_map.mp listed
  have here : (source.recordShape name fields).elementNamed field.name = element := by
    rw [← named]
    exact distinct.elementNamed present
  refine ⟨⟨_, find?_itemFields unique member, returns⟩, ?_, ?_⟩
  · rwa [here]
  · rw [here, named]

theorem recordFields_map (accords : target.Accords source)
    (keyed : (source.recordShape name fields).arrayTags = none)
    (readable : (Item.map source
      (kept.map fun pair => (pair.1.keyItem source, pair.1.valueItem source pair.2))).Readable)
    (expected : String) (own : List UInt64) :
    recordFields target (source.recordShape name fields) expected (itemFields target fields) own
        (Item.map source
          (kept.map fun pair => (pair.1.keyItem source, pair.1.valueItem source pair.2))).body =
      complete (itemFields target fields) (placeEntries target (source.recordShape name fields)
        (itemFields target fields) []
        (kept.map fun pair => (pair.1.keyItem source, pair.1.valueItem source pair.2))) := by
  have notFramed : (source.recordShape name fields).isArrayFramed = false := by
    rw [Shape.isArrayFramed, keyed]
    rfl
  have hasKeys : (source.recordShape name fields).hasKeys = true := by
    rw [Shape.hasKeys, Config.recordShape, Config.kind_shape accords.keyed, ← Config.recordShape, notFramed]
    rfl
  have known := Body.header_major readable.formed.head
  have map : (source.recordShape name fields).header.1 = .map := by
    simp [Shape.header, hasKeys]
  rw [recordFields, notFramed, if_neg Bool.false_ne_true, if_pos hasKeys]
  exact mapped_eq known map keyed _ own

theorem recordFields_array (kind : shape.kind = .keyed) {tags : List UInt64} (framed : shape.arrayTags = some tags)
    {items : List Item} (readable : (Item.array source items).Readable) {own : List UInt64}
    (behind : tags <:+ own) {expected : String} {readers : List (FieldReader (ItemReader Value))}
    {decoded : List (String × Value)} (done : takeFields shape expected 0 readers items = .ok (decoded, [])) :
    recordFields target shape expected readers own (Item.array source items).body = .ok decoded := by
  have isFramed : shape.isArrayFramed = true := by
    rw [Shape.isArrayFramed, framed]
    rfl
  have known := Body.header_major readable.formed.head
  have array : shape.header.1 = .array := by
    simp [Shape.header, Shape.hasKeys, kind, isFramed]
  rw [recordFields, if_pos isFramed]
  refine arrayed_ok known array (fun tags' framed' _ => ?_) done
  rw [framed] at framed'
  cases framed'
  exact behind

theorem mapFields_return (accords : target.Accords source) (carried : source.Carries name fields values)
    (names : values.map Prod.fst = fields.map Field.name)
    (returns : ∀ pair ∈ fields.zip values, pair.2.2.ReturnsIn source
      ((source.recordShape name fields).elementNamed pair.1.name) (pair.1.type.ofItem target))
    (keyed : (source.recordShape name fields).arrayTags = none)
    (made : fieldItems source (source.recordShape name fields) values = .ok kept)
    (readable : (Item.map source
      (kept.map fun pair => (pair.1.keyItem source, pair.1.valueItem source pair.2))).Readable)
    (expected : String) (own : List UInt64) :
    ∃ decoded, recordFields target (source.recordShape name fields) expected (itemFields target fields) own
        (Item.map source
          (kept.map fun pair => (pair.1.keyItem source, pair.1.valueItem source pair.2))).body = .ok decoded ∧
      Value.canonicalFields decoded = Value.canonicalFields values := by
  have distinct : (source.recordShape name fields).Distinct :=
    Config.distinct_shape accords.distinct carried.distinct
  have notFramed : (source.recordShape name fields).isArrayFramed = false := by
    rw [Shape.isArrayFramed, keyed]
    rfl
  have inside : ∀ pair ∈ kept, pair.2.Readable := fun pair member =>
    (Item.readable_entries readable _ (List.mem_map_of_mem member)).2.of_tagged
  have placeable : ∀ entry ∈ values, Placeable source target (source.recordShape name fields)
      (itemFields target fields) entry ∨
        (source.recordShape name fields).indexOfName entry.1 = none ∧ target.ignoreUnknownKeys = true := by
    intro entry member
    obtain ⟨field, present, named, paired⟩ := exists_field names member
    rcases entry with ⟨_, value⟩
    cases named
    exact .inl (placeable_field distinct carried.distinct present (carried.listed field present)
      (returns _ paired))
  have unique : (values.map Prod.fst).Nodup := by
    rw [names]
    exact carried.distinct
  have fresh : ∀ entry ∈ values, List.lookup entry.1 ([] : List (String × Value)) = none :=
    fun _ _ => rfl
  obtain ⟨placed, done, entries⟩ :=
    placeEntries_return accords distinct placeable unique made inside fresh
  obtain ⟨decoded, completed, same⟩ := (@complete_iff target _ _ names placed).mpr fun pair member => by
    obtain ⟨field, ⟨other, value⟩⟩ := pair
    obtain ⟨present, inside⟩ := List.of_mem_zip member
    have named : field.name = other := name_of_mem_zip names member
    cases named
    refine (complete_of_settled (entries.settled _ inside)).mpr fun untold => ?_
    rcases untold with left | unlisted
    · exact notFramed ▸ carried.restored _ member left
    · exact absurd (carried.listed field present) (Shape.indexOfName_eq_none_iff.mp unlisted)
  refine ⟨decoded, ?_, same⟩
  rw [recordFields_map accords keyed readable, complete, done, ok_bind, completed]

theorem arrayFields_return (accords : target.Accords source) (carried : source.Carries name fields values)
    (names : values.map Prod.fst = fields.map Field.name)
    (returns : ∀ pair ∈ fields.zip values, pair.2.2.ReturnsIn source
      ((source.recordShape name fields).elementNamed pair.1.name) (pair.1.type.ofItem target))
    {tags : List UInt64} (framed : (source.recordShape name fields).arrayTags = some tags)
    (made : fieldItems source (source.recordShape name fields) values = .ok kept)
    (readable : (Item.array source (kept.map fun pair => pair.1.valueItem source pair.2)).Readable)
    (expected : String) {own : List UInt64} (behind : tags <:+ own) :
    ∃ decoded, recordFields target (source.recordShape name fields) expected (itemFields target fields) own
        (Item.array source (kept.map fun pair => pair.1.valueItem source pair.2)).body = .ok decoded ∧
      Value.canonicalFields decoded = Value.canonicalFields values := by
  have distinct : (source.recordShape name fields).Distinct :=
    Config.distinct_shape accords.distinct carried.distinct
  have isFramed : (source.recordShape name fields).isArrayFramed = true := by
    rw [Shape.isArrayFramed, framed]
    rfl
  have inside : ∀ pair ∈ kept, pair.2.Readable := fun pair member =>
    (Item.readable_items readable _ (List.mem_map_of_mem member)).of_tagged
  have positions : ∀ (index : Nat) (field : String), (fields.map Field.name)[index]? = some field →
      (source.recordShape name fields).elementNamed field =
        (source.recordShape name fields).element (0 + index) := by
    intro index field found
    rw [Nat.zero_add]
    apply distinct.elementNamed_of_position
    rw [carried.ordered isFramed]
    exact found
  have inPlace : ∀ (index : Nat) pair, (fields.zip values)[index]? = some pair → pair.2.2.ReturnsAt source
      ((source.recordShape name fields).elementNamed pair.1.name)
      ((source.recordShape name fields).element (0 + index)) (pair.1.type.ofItem target) := by
    intro index pair found
    have position : (fields.map Field.name)[index]? = some pair.1.name := by
      rw [List.getElem?_map, (List.getElem?_zip_eq_some.mp found).1]
      rfl
    rw [← positions index _ position]
    exact returns pair (List.mem_of_getElem? found)
  obtain ⟨decoded, done, same⟩ := takeFields_returns accords.keyed names inPlace
    (isFramed ▸ carried.restored) (carried.trailing isFramed) made inside expected
  have kind : (source.recordShape name fields).kind = .keyed := Config.kind_shape accords.keyed name _
  exact ⟨decoded, recordFields_array kind framed readable behind done, same⟩

theorem record_returns (accords : target.Accords source) (carried : source.Carries name fields values)
    (names : values.map Prod.fst = fields.map Field.name)
    (returns : ∀ pair ∈ fields.zip values, pair.2.2.ReturnsIn source
      ((source.recordShape name fields).elementNamed pair.1.name) (pair.1.type.ofItem target))
    (expected : String) : (Value.record name values).Returns source target
      (ItemReader.record target name expected (itemFields target fields)) := by
  intro markers item _ found readable
  obtain ⟨kept, made, rfl⟩ := map_eq_ok.mp found
  have elements : (source.shape name .keyed []).elementNamed = (source.recordShape name fields).elementNamed :=
    source.elementNamed_shape name .keyed [] _
  have framing : (source.shape name .keyed []).arrayTags = (source.recordShape name fields).arrayTags :=
    source.arrayTags_shape name .keyed [] _
  rw [fieldItems_congr elements] at made
  rw [Item.record, framing] at readable ⊢
  have reads : ItemReader.record target name expected (itemFields target fields) =
      behindTags target fun own body => .record name <$>
        recordFields target (source.recordShape name fields)
          (withElements expected (itemFields target fields).length) (itemFields target fields) own body := by
    rw [ItemReader.record, names_itemFields, accords.shape]
    rfl
  rw [reads]
  cases framed : (source.recordShape name fields).arrayTags with
  | some tags =>
    rw [framed] at readable
    refine yields_behindTags fun own behind => ?_
    have suffix : tags <:+ own := by
      dsimp only at behind
      rw [Item.tagNumbers_tagged] at behind
      exact List.append_nil tags ▸ behind
    obtain ⟨decoded, done, same⟩ := arrayFields_return accords carried names returns framed made
      readable.of_tagged (withElements expected (itemFields target fields).length) suffix
    exact ⟨.record name decoded, map_eq_ok.mpr ⟨decoded, done, rfl⟩, congrArg (Value.record name) same⟩
  | none =>
    rw [framed] at readable
    refine yields_behindTags fun own _ => ?_
    obtain ⟨decoded, done, same⟩ := mapFields_return accords carried names returns framed made readable
      (withElements expected (itemFields target fields).length) own
    exact ⟨.record name decoded, map_eq_ok.mpr ⟨decoded, done, rfl⟩, congrArg (Value.record name) same⟩

end
end TypedCbor
