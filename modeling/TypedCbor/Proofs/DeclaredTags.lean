import TypedCbor.Proofs.Entries.Found
import TypedCbor.Proofs.Places.Tags

namespace TypedCbor

open Decoder

-- The field that the elements of a structure are values of; lists, pairs and data maps know of none.
def Shape.fieldAt (shape : Shape) (index : Nat) : Option Element :=
  if shape.hasKeys || shape.isArrayFramed then some (shape.element index) else none

-- Where in a document an item starts, what it is read as, and which field it is the value of.
inductive Config.ItemAt (config : Config) (type : Ty) (input : Bytes) : Option Element → Target → Decoder → Prop where
  | document : config.ItemAt type input none (.value type) ⟨input, none, []⟩
  | element {target : Target} {shape : Shape} {decoder decoder₁ decoder₂ inner : Decoder}
      {s s₁ s₂ : OpenStructure} {others : List Nat} {index : Nat} {part : Ty}
      (visits : config.Visits type input target decoder)
      (framed : target.frame config = some shape)
      (begun : outcome (beginStructure config shape) decoder = .ok (s, decoder₁))
      (walk : Walk config (target.part config) [] s decoder₁ others s₁ decoder₂)
      (announced : outcome (nextElement config s₁) decoder₂ = .ok ((some index, s₂), inner))
      (known : target.part config others index = some part) :
      config.ItemAt type input (shape.fieldAt index) (.value part) inner
  | content {parent : String} {variants : List (Variant Ty)} {target : Target} {decoder inner : Decoder}
      (visits : config.Visits type input (.value (.enumeration parent variants)) decoder)
      (enters : Enters config (.value (.enumeration parent variants)) decoder target inner) :
      config.ItemAt type input none target inner

inductive Config.Contains (config : Config) (type : Ty) (input : Bytes) : Ty → Bytes → Prop where
  | whole : config.Contains type input type input
  | embedded {outer part : Ty} {document content : Bytes} {decoder after : Decoder} {value : Value}
      (contains : config.Contains type input outer document)
      (visits : config.Visits outer document (.value (.embedded part)) decoder)
      (read : outcome ((Ty.embedded part).read config) decoder = .ok (.embedded value (some content), after)) :
      config.Contains type input part content

-- The tags in front of an item begin with those that its field declares, unless the item is passed over.
def Config.HeedsValueTags (config : Config) (field : Option Element) (target : Target) (start : Decoder) : Prop :=
  PassedOver config target start ∨ ∃ tags, Tagged start.rest tags ∧ ItemReader.declaredTags field <+: tags

structure Entry.HeedsTags (config : Config) (shape : Shape) (fields : List (Field Ty)) (entry : Entry) : Prop where
  key : config.verifyKeyTags = true → ∀ name index, entry.key.body.key = .ok name →
    name.resolve shape = some index → (shape.element index).keyTags ≠ [] →
      entry.key.tagNumbers = (shape.element index).keyTags
  value : config.verifyValueTags = true → ∀ name index field, entry.key.body.key = .ok name →
    name.resolve shape = some index → fields.find? (·.name == shape.elementName index) = some field →
      config.HeedsValueTags (some (shape.element index)) (.value field.type)
        ⟨entry.value, some (shape.element index), []⟩

section
variable {config : Config}

theorem Decoder.settles_beginStructure (shape : Shape) : Settles (beginStructure config shape) :=
  (settles_readHeader config).bind fun _ => spares_ofExcept _

theorem Walk.keepsClear {part : List Nat → Nat → Option Ty} {others others' : List Nat} {s s' : OpenStructure}
    {decoder decoder' : Decoder} (walk : Walk config part others s decoder others' s' decoder')
    (clear : decoder.pendingTags = []) : decoder'.pendingTags = [] := by
  induction walk with
  | done => exact clear
  | @next _ _ _ _ _ _ _ _ _ _ type _ _ _ read _ ih => exact ih (Ty.settles config type _ _ _ read).2

theorem Decoder.field_of_nextByKey {rounds : Nat} {s s' : OpenStructure} {decoder after : Decoder} {index : Nat}
    (found : outcome (nextByKey config rounds s) decoder = .ok ((some index, s'), after)) :
    after.field = some (s.shape.element index) := by
  induction rounds generalizing s decoder with
  | zero => cases found
  | succ rounds ih =>
    cases keyRound_of_nextByKey found with
    | announced => rfl
    | passed _ _ _ _ _ _ goes =>
      have announced := ih goes
      exact announced

theorem Decoder.field_of_nextElement {s s' : OpenStructure} {decoder after : Decoder} {index : Nat}
    (found : outcome (nextElement config s) decoder = .ok ((some index, s'), after)) :
    after.field = s.shape.fieldAt index := by
  unfold Shape.fieldAt
  by_cases keyed : s.shape.hasKeys = true
  · rw [nextElement, if_pos keyed, outcome_bind, outcome_get, ok_bind] at found
    rw [field_of_nextByKey found, keyed, Bool.true_or, if_pos rfl]
  · rw [nextElement, if_neg keyed, nextByPosition] at found
    obtain ⟨⟨ended, _⟩, -, found⟩ := bind_eq_ok.mp (outcome_bind .. ▸ found)
    cases ended with
    | true => cases found
    | false =>
      cases found
      rw [Bool.eq_false_iff.mpr keyed, Bool.false_or]

variable {type : Ty} {input : Bytes} {field : Option Element} {target : Target} {start : Decoder}

theorem Config.ItemAt.visits (item : config.ItemAt type input field target start) :
    config.Visits type input target start := by
  cases item with
  | document => exact .here
  | element visits framed begun walk announced known =>
    exact .further visits (.element framed begun walk announced known)
  | content visits enters => exact .further visits enters

theorem Decoder.armed_element {shape : Shape} {part : List Nat → Nat → Option Ty}
    {decoder decoder₁ decoder₂ inner : Decoder} {s s₁ s₂ : OpenStructure} {others : List Nat} {index : Nat}
    (begun : outcome (beginStructure config shape) decoder = .ok (s, decoder₁))
    (walk : Walk config part [] s decoder₁ others s₁ decoder₂)
    (announced : outcome (nextElement config s₁) decoder₂ = .ok ((some index, s₂), inner)) :
    inner.field = shape.fieldAt index ∧ inner.pendingTags = [] := by
  obtain ⟨_, rfl⟩ := eq_of_begun begun
  have clear := walk.keepsClear (settles_beginStructure _ _ _ _ begun).2
  refine ⟨?_, keepsClear_nextElement _ _ _ _ clear announced⟩
  rw [field_of_nextElement announced, walk.shape]

theorem Decoder.pair_of_begun {s : OpenStructure} {decoder after : Decoder}
    (begun : outcome (beginPair config) decoder = .ok ((.array, s), after)) :
    after.pendingTags = [] ∧ s.shape = .polymorphic := by
  obtain ⟨⟨_, ahead⟩, -, found⟩ := bind_eq_ok.mp (outcome_bind .. ▸ begun)
  obtain ⟨⟨major, looked⟩, -, found⟩ := bind_eq_ok.mp (outcome_bind .. ▸ found)
  obtain ⟨⟨opening, first⟩, started, same⟩ := bind_eq_ok.mp (outcome_bind .. ▸ found)
  cases same
  obtain ⟨_, rfl⟩ := eq_of_begun started
  exact ⟨(settles_beginStructure _ _ _ _ started).2, rfl⟩

theorem Enters.armed_content {parent : String} {variants : List (Variant Ty)} {decoder inner : Decoder}
    (enters : Enters config (.value (.enumeration parent variants)) decoder target inner) :
    inner.field = none ∧ inner.pendingTags = [] := by
  cases enters with
  | variant begun firstAnnounced named known secondAnnounced carries =>
    obtain ⟨-, pair⟩ := pair_of_begun begun
    refine ⟨?_, keepsClear_nextElement _ _ _ _ (settles_readText _ _ _ named).2 secondAnnounced⟩
    rw [field_of_nextElement secondAnnounced, shape_of_nextElement firstAnnounced, pair]
    rfl
  | element framed => cases framed

theorem Config.ItemAt.armed (item : config.ItemAt type input field target start) :
    start.field = field ∧ start.pendingTags = [] := by
  cases item with
  | document => exact ⟨rfl, rfl⟩
  | element visits framed begun walk announced known => exact armed_element begun walk announced
  | content visits enters => exact enters.armed_content

theorem Config.Visits.item {place : Target} {inner : Decoder} (visits : config.Visits type input place inner) :
    ∃ field target start, config.ItemAt type input field target start ∧ Sits config target start place inner := by
  induction visits with
  | here => exact ⟨_, _, _, .document, .here⟩
  | further visits enters ih =>
    obtain ⟨field, target, start, item, sits⟩ := ih
    cases enters with
    | tuple => exact ⟨_, _, _, item, .further sits trivial .tuple⟩
    | tupleStruct => exact ⟨_, _, _, item, .further sits trivial .tupleStruct⟩
    | record => exact ⟨_, _, _, item, .further sits trivial .record⟩
    | newtype => exact ⟨_, _, _, item, .further sits trivial .newtype⟩
    | delayed => exact ⟨_, _, _, item, .further sits trivial .delayed⟩
    | option present => exact ⟨_, _, _, item, .further sits trivial (.option present)⟩
    | variant begun firstAnnounced named known secondAnnounced carries =>
      exact ⟨_, _, _, .content visits (.variant begun firstAnnounced named known secondAnnounced carries), .here⟩
    | element framed begun walk announced known =>
      exact ⟨_, _, _, .element visits framed begun walk announced known, .here⟩

theorem Config.Contains.accepted {part : Ty} {document : Bytes} (contains : config.Contains type input part document)
    {value : Value} (accepted : config.decode type input = .ok value) :
    ∃ held, config.decode part document = .ok held := by
  cases contains with
  | whole => exact ⟨value, accepted⟩
  | embedded contains visits read =>
    rw [Ty.read, readEmbedded] at read
    obtain ⟨⟨header, _⟩, -, read⟩ := bind_eq_ok.mp (outcome_bind .. ▸ read)
    dsimp only at read
    split at read
    · split at read
      · cases read
      · obtain ⟨⟨bytes, _⟩, -, read⟩ := bind_eq_ok.mp (outcome_bind .. ▸ read)
        obtain ⟨⟨held, _⟩, inside, same⟩ := bind_eq_ok.mp (outcome_bind .. ▸ read)
        cases same
        obtain ⟨_, decoded, same⟩ := map_eq_ok.mp (outcome_ofExcept .. ▸ inside)
        cases same
        exact ⟨_, decoded⟩
    · cases read

theorem Decoder.tagged_of_takeTags (verifies : config.verifyValueTags = true) {decoder after : Decoder}
    {own : List UInt64} (clear : decoder.pendingTags = [])
    (took : outcome (takeTags config) decoder = .ok (own, after)) :
    Tagged decoder.rest (ItemReader.declaredTags decoder.field ++ own) := by
  rw [outcome_takeTags, clear] at took
  obtain ⟨⟨numbers, rest⟩, read, split⟩ := bind_eq_ok.mp took
  obtain ⟨_, found, same⟩ := map_eq_ok.mp split
  cases same
  rw [ItemReader.append_of_ownTags verifies found]
  exact tagged_iff.mpr ⟨rest, read⟩

theorem Config.heedsValueTags_of_read (verifies : config.verifyValueTags = true) {after : Decoder} {value : Value}
    (clear : start.pendingTags = []) (read : outcome (target.read config) start = .ok (value, after)) :
    config.HeedsValueTags start.field target start := by
  rcases target.passedOver_or_tagsPass read with passed | ⟨own, behind, took⟩
  · exact .inl passed
  · exact .inr ⟨_, tagged_of_takeTags verifies clear took, List.prefix_append _ _⟩

theorem Decoder.own_of_readRecord (verifies : config.verifyValueTags = true) {name expected : String}
    {fields : List (Field Ty)} {framing : List UInt64}
    (framed : (config.recordShape name fields).arrayTags = some framing) {decoder after : Decoder} {value : Value}
    (read : outcome (readRecord config name expected (fieldReaders config fields)) decoder = .ok (value, after)) :
    ∃ own between, outcome (takeTags config) decoder = .ok (own, between) ∧ framing <:+ own := by
  rw [readRecord, map_name_fieldReaders] at read
  obtain ⟨⟨s, first⟩, begun, -⟩ := bind_eq_ok.mp (outcome_bind .. ▸ read)
  obtain ⟨header, own, headed, opened⟩ := header_of_begun begun
  obtain ⟨⟨own', between⟩, took, goes⟩ := bind_eq_ok.mp (outcome_bind .. ▸ headed)
  obtain ⟨⟨header', _⟩, -, same⟩ := bind_eq_ok.mp (outcome_bind .. ▸ goes)
  cases same
  exact ⟨own', between, took, suffix_of_opened opened verifies framed⟩

theorem ItemReader.announced_of_resolved {shape : Shape} {key : Item} {found : Option Nat}
    (told : announced config shape key = .ok found) {name : Key} {index : Nat} (named : key.body.key = .ok name)
    (resolved : name.resolve shape = some index) :
    found = some index ∧ acceptsKeyTags config (shape.element index) key.tagNumbers = true := by
  cases found with
  | none =>
    obtain ⟨name', named', unresolved, -⟩ := announced_eq_none.mp told
    rw [named] at named'
    cases named'
    rw [resolved] at unresolved
    cases unresolved
  | some index' =>
    obtain ⟨name', named', resolved', accepts⟩ := announced_eq_some.mp told
    rw [named] at named'
    cases named'
    rw [resolved] at resolved'
    cases resolved'
    exact ⟨rfl, accepts⟩

theorem Decoder.eq_of_acceptsKeyTags (verifies : config.verifyKeyTags = true) {element : Element} {tags : List UInt64}
    (declared : element.keyTags ≠ []) (accepts : acceptsKeyTags config element tags = true) :
    tags = element.keyTags := by
  simpa [acceptsKeyTags, verifies, declared] using accepts

theorem Entry.Tells.heedsTags {shape : Shape} {fields : List (Field Ty)} {entry : Entry}
    {told : Option (String × Value)} (tells : entry.Tells config shape fields told) :
    entry.HeedsTags config shape fields := by
  refine ⟨fun verifies name index named resolved declared => ?_,
    fun verifies name index field named resolved known => ?_⟩
  · cases tells with
    | field _ announced | passed _ announced =>
      exact eq_of_acceptsKeyTags verifies declared (ItemReader.announced_of_resolved announced named resolved).2
  · cases tells with
    | field _ announced known' read =>
      cases (ItemReader.announced_of_resolved announced named resolved).1
      rw [known] at known'
      cases known'
      exact @Config.heedsValueTags_of_read config (.value field.type) _ verifies _ _ rfl read
    | passed _ announced unknown =>
      rw [unknown index (ItemReader.announced_of_resolved announced named resolved).1] at known
      cases known

theorem Listing.Reads.heedsTags {shape : Shape} {fields : List (Field Ty)} {listing : Listing} {rest : Bytes}
    (reads : listing.Reads config shape fields input rest) :
    ∀ entry ∈ listing.entries, entry.HeedsTags config shape fields := by
  obtain ⟨told, each⟩ := reads.told
  generalize listing.entries = entries at each
  induction each with
  | nil => exact fun entry member => absurd member List.not_mem_nil
  | cons tells _ ih => exact List.forall_mem_cons.mpr ⟨tells.heedsTags, ih⟩

end

-- In an accepted document and in all that are embedded in it, every entry of a record bears the tags that are
-- declared for it, every item begins with those of its field, and behind these every record in an array with its own.
theorem Config.heedsTags_of_decode {config : Config} {type : Ty} {input : Bytes} {value : Value}
    (accepted : config.decode type input = .ok value) {part : Ty} {document : Bytes}
    (contains : config.Contains type input part document) :
    (∀ name expected fields inner, config.Visits part document (.record name expected fields) inner →
      (config.recordShape name fields).hasKeys = true →
        (∃ listing rest, Listing.Reads config (config.recordShape name fields) fields listing inner.rest rest) ∧
        ∀ listing rest, Listing.Reads config (config.recordShape name fields) fields listing inner.rest rest →
          ∀ entry ∈ listing.entries, entry.HeedsTags config (config.recordShape name fields) fields) ∧
    (config.verifyValueTags = true →
      (∀ field target start, config.ItemAt part document field target start →
        config.HeedsValueTags field target start) ∧
      ∀ name expected fields inner framing, config.Visits part document (.record name expected fields) inner →
        (config.recordShape name fields).arrayTags = some framing →
          (∃ field target start, config.ItemAt part document field target start ∧
            Sits config target start (.record name expected fields) inner) ∧
          ∀ field target start, config.ItemAt part document field target start →
            Sits config target start (.record name expected fields) inner →
              ∃ own, Tagged start.rest (ItemReader.declaredTags field ++ own) ∧ framing <:+ own) := by
  obtain ⟨held, accepted⟩ := contains.accepted accepted
  refine ⟨fun name expected fields inner visits keyed => ?_, fun verifies => ⟨fun field target start item => ?_,
    fun name expected fields inner framing visits framed => ⟨visits.item, fun field target start item sits => ?_⟩⟩⟩
  · obtain ⟨⟨front, listing, rest, -, reads⟩, -⟩ := Config.Visits.listed accepted visits keyed
    exact ⟨⟨listing, rest, reads⟩, fun listing rest reads => reads.heedsTags⟩
  · obtain ⟨made, after, read⟩ := item.visits.accepted accepted
    obtain ⟨rfl, clear⟩ := item.armed
    exact heedsValueTags_of_read verifies clear read
  · obtain ⟨made, after, read⟩ := visits.accepted accepted
    obtain ⟨rfl, clear⟩ := item.armed
    obtain ⟨own, between, took, behind⟩ := own_of_readRecord verifies framed read
    exact ⟨own, tagged_of_takeTags verifies clear (sits.outcome_takeTags.trans took), behind⟩

def Ty.readingFields : List (Field Ty) := [⟨"level", .int .u8, none⟩]

def Ty.stationFields : List (Field Ty) := [⟨"reading", .option (.record "Reading" Ty.readingFields), none⟩]

def Element.reading : Element := ⟨"reading", some 1, [5], [24], false, false, none⟩

def Element.level : Element := ⟨"level", none, [], [9], false, false, none⟩

def Config.stations : Config :=
  { descriptors := [⟨"Station", .keyed, none, [.reading]⟩, ⟨"Reading", .keyed, some [7], [.level]⟩] }

def Value.station (level : Int) : Value :=
  .record "Station" [("reading", .some (.record "Reading" [("level", .int .u8 level)]))]

def Entry.reading : Entry := ⟨⟨[.shortest 5], .unsigned (.shortest 1)⟩, [0xd8, 0x18, 0xc7, 0x81, 0xc9, 0x02]⟩

def Listing.station : Listing := ⟨[], .counted .immediate, [.reading]⟩

theorem Config.visits_station : Config.stations.Visits (.record "Station" Ty.stationFields) Listing.station.bytes
    (.record "Station" "struct Station" Ty.stationFields) ⟨Listing.station.bytes, none, []⟩ :=
  .further .here .record

theorem Listing.reads_station : Listing.station.Reads Config.stations
    (Config.stations.recordShape "Station" Ty.stationFields) Ty.stationFields Listing.station.bytes [] := by
  refine ⟨rfl, by decide, by decide, [some ("reading", .some (.record "Reading" [("level", .int .u8 2)]))], .cons ?_ .nil⟩
  exact @Entry.Tells.field _ _ _ _ 0 _ _ (Item.formed_label (by decide) (by decide)) rfl rfl rfl

theorem Config.itemAt_reading : Config.stations.ItemAt (.record "Station" Ty.stationFields) Listing.station.bytes
    (some .reading) (.value (.option (.record "Reading" Ty.readingFields)))
    ⟨[0xd8, 0x18, 0xc7, 0x81, 0xc9, 0x02], some .reading, []⟩ := by
  have begun : outcome (beginStructure Config.stations (Config.stations.recordShape "Station" Ty.stationFields))
      ⟨Listing.station.bytes, none, []⟩ =
        .ok (⟨Config.stations.recordShape "Station" Ty.stationFields, some 1, 0⟩,
          ⟨[0xc5, 0x01, 0xd8, 0x18, 0xc7, 0x81, 0xc9, 0x02], none, []⟩) := rfl
  have announced : outcome
      (nextElement Config.stations ⟨Config.stations.recordShape "Station" Ty.stationFields, some 1, 0⟩)
      ⟨[0xc5, 0x01, 0xd8, 0x18, 0xc7, 0x81, 0xc9, 0x02], none, []⟩ =
        .ok ((some 0, ⟨Config.stations.recordShape "Station" Ty.stationFields, some 0, 1⟩),
          ⟨[0xd8, 0x18, 0xc7, 0x81, 0xc9, 0x02], some .reading, []⟩) := rfl
  exact .element Config.visits_station rfl begun .done announced rfl

theorem Config.sits_reading : Sits Config.stations (.value (.option (.record "Reading" Ty.readingFields)))
    ⟨[0xd8, 0x18, 0xc7, 0x81, 0xc9, 0x02], some .reading, []⟩
    (.record "Reading" "struct Reading" Ty.readingFields) ⟨[0x81, 0xc9, 0x02], some .reading, [24, 7]⟩ :=
  .further (.further .here trivial (.option rfl)) trivial .record

theorem Config.decode_station :
    Config.stations.decode (.embedded (.record "Station" Ty.stationFields)) (0x49 :: Listing.station.bytes) =
        .ok (.embedded (.station 2) (some Listing.station.bytes)) ∧
      Entry.reading.HeedsTags Config.stations (Config.stations.recordShape "Station" Ty.stationFields)
        Ty.stationFields ∧
      Config.stations.HeedsValueTags (some .reading) (.value (.option (.record "Reading" Ty.readingFields)))
        ⟨[0xd8, 0x18, 0xc7, 0x81, 0xc9, 0x02], some .reading, []⟩ ∧
      ∃ own, Tagged [0xd8, 0x18, 0xc7, 0x81, 0xc9, 0x02] ([24] ++ own) ∧ [7] <:+ own := by
  have accepted : Config.stations.decode (.embedded (.record "Station" Ty.stationFields))
      (0x49 :: Listing.station.bytes) = .ok (.embedded (.station 2) (some Listing.station.bytes)) := by rfl
  have contains : Config.stations.Contains (.embedded (.record "Station" Ty.stationFields))
      (0x49 :: Listing.station.bytes) (.record "Station" Ty.stationFields) Listing.station.bytes :=
    @Config.Contains.embedded _ _ _ _ _ _ _ _ ⟨[], none, []⟩ (.station 2) .whole .here rfl
  obtain ⟨entries, checked⟩ := Config.heedsTags_of_decode accepted contains
  obtain ⟨values, arrays⟩ := checked rfl
  have reading := Visits.further (Visits.further Config.itemAt_reading.visits (.option rfl)) .record
  refine ⟨accepted, ?_, values _ _ _ Config.itemAt_reading, ?_⟩
  · exact (entries _ _ _ _ Config.visits_station rfl).2 _ _ Listing.reads_station _ (List.mem_singleton_self _)
  · exact (arrays _ _ _ _ _ reading rfl).2 _ _ _ Config.itemAt_reading Config.sits_reading

-- Without the tags of the key, of the value or of the array a station is refused.
example :
    Config.stations.decode (.record "Station" Ty.stationFields) [0xa1, 0x01, 0xd8, 0x18, 0xc7, 0x81, 0xc9, 0x02] =
        .error (.tagMismatch [5] []) ∧
      Config.stations.decode (.record "Station" Ty.stationFields) [0xa1, 0xc5, 0x01, 0xc7, 0x81, 0xc9, 0x02] =
        .error (.tagMismatch [24] [7]) ∧
      Config.stations.decode (.record "Station" Ty.stationFields) [0xa1, 0xc5, 0x01, 0xd8, 0x18, 0x81, 0xc9, 0x02] =
        .error (.tagMismatch [7] []) :=
  ⟨rfl, rfl, rfl⟩

end TypedCbor
