import TypedCbor.Proofs.RoundTrip

namespace TypedCbor

namespace Ty

def isRecord : Ty → Bool
  | record .. => true
  | delayed type => (type ()).isRecord
  | _ => false

def isObject : Ty → Bool
  | option type => type.isRecord
  | _ => false

theorem exists_record {type : Ty} (known : type.isRecord = true) :
    ∃ name fields, (∀ config, type.ofItem config = (record name fields).ofItem config) ∧
      ∀ {carried present value}, type.Holds carried present value →
        (record name fields).Holds carried present value := by
  induction type using Ty.induction with
  | step type ih =>
    cases type with
    | record name fields => exact ⟨name, fields, fun _ => rfl, id⟩
    | delayed type =>
      obtain ⟨name, fields, same, holds⟩ := ih (type ()) (by simp [parts]) known
      refine ⟨name, fields, fun config => ?_, fun held => ?_⟩
      · rw [ofItem]
        exact same config
      · cases held with
        | delayed held => exact holds held
    | bool | int | single | double | char | text | textSlice | bytes | bytesSlice | unit | unitStruct
      | option | seq | tuple | tupleStruct | newtype | map | enumeration | embedded | any | identifier
      | ignored => cases known

theorem exists_option {type : Ty} (known : type.isObject = true) :
    ∃ held, type = option held ∧ held.isRecord = true := by
  cases type with
  | option held => exact ⟨held, rfl, known⟩
  | bool | int | single | double | char | text | textSlice | bytes | bytesSlice | unit | unitStruct
    | seq | tuple | tupleStruct | newtype | map | record | enumeration | embedded | delayed | any
    | identifier | ignored => cases known

end Ty

namespace Config

-- A record is written as the empty map: with definite lengths, in a map, all fields left out.
def WritesNothing (config : Config) (name : String) (values : List (String × Value)) : Prop :=
  config.definiteLengths = true ∧ (config.shape name .keyed []).arrayTags = none ∧
    ∀ entry ∈ values, config.LeavesOut ((config.shape name .keyed []).elementNamed entry.1) entry.2

def Voids (config : Config) (value : Value) : Prop :=
  ∃ name values, value = .some (.record name values) ∧ config.WritesNothing name values

structure CarriesObjects (config : Config) (name : String) (fields : List (Field Ty))
    (values : List (String × Value)) : Prop extends config.Carries name fields values where
  objects : ∀ pair ∈ fields.zip values,
    ((config.recordShape name fields).elementNamed pair.1.name).object = true →
      pair.1.type.isObject = true ∧ ¬config.Voids pair.2.2

end Config

open ItemReader

variable {source target : Config} {shape : Shape}

theorem leftOut_of_fieldItems (keyed : ∀ descriptor ∈ source.descriptors, descriptor.kind = .keyed)
    {values : List (String × Value)} (found : fieldItems source shape values = .ok []) :
    ∀ entry ∈ values, source.LeavesOut (shape.elementNamed entry.1) entry.2 := by
  induction values with
  | nil => exact fun _ member => absurd member List.not_mem_nil
  | cons entry values ih =>
    rcases entry with ⟨name, value⟩
    obtain ⟨item, others, -, rest, ⟨left, rfl⟩ | ⟨-, same⟩⟩ := fieldItems_cons_cases keyed found
    · exact List.forall_mem_cons.mpr ⟨left, ih rest⟩
    · cases same

namespace Body

theorem head_of_emptyMap {body : Body Item} (fits : ∀ head ∈ body.head?, head.Fits)
    (empty : body.header.initial = emptyMapByte) :
    body.major = .map ∧ body.head? = some ⟨.immediate, 0⟩ := by
  have info : body.header.info = 0 := by rw [Header.info, empty]; rfl
  refine ⟨?_, ?_⟩
  · rw [← header_major fits, Header.major, empty]
    rfl
  · rw [head_of_small fits (by omega), info]

end Body

theorem Item.present_record (keyed : ∀ descriptor ∈ source.descriptors, descriptor.kind = .keyed)
    {name : String} {values : List (String × Value)} (something : ¬source.WritesNothing name values)
    {kept : List (Element × Item)} (made : fieldItems source (source.shape name .keyed []) values = .ok kept)
    (readable : (Item.record source (source.shape name .keyed []) kept).Readable) (field : Option Element) :
    ¬(Item.record source (source.shape name .keyed []) kept).body.isNull field := by
  rintro (null | undefined | ⟨empty, -⟩)
  · refine Item.not_nullLike_record (Body.nullLike_of_isNull readable.formed.head ordinary_none (.inl null))
  · exact Item.not_nullLike_record
      (Body.nullLike_of_isNull readable.formed.head ordinary_none (.inr (.inl undefined)))
  · obtain ⟨map, first⟩ := Body.head_of_emptyMap readable.formed.head empty
    apply something
    unfold Item.record at map first
    cases framed : (source.shape name .keyed []).arrayTags with
    | some tags =>
      rw [framed] at map
      cases map
    | none =>
      rw [framed] at first
      have counted : source.definiteLengths = true ∧ kept = [] := by
        change (source.framing _).head? _ = _ at first
        unfold Config.framing at first
        split at first
        · rename_i definite
          have length := congrArg Head.n (Option.some.inj first)
          rw [List.length_map] at length
          exact ⟨definite, List.length_eq_zero_iff.mp length⟩
        · cases first
      rw [counted.2] at made
      exact ⟨counted.1, framed, leftOut_of_fieldItems keyed made⟩

namespace Value

theorem Returns.ofSome {type : Ty} {value : Value}
    (returns : (Value.some value).Returns source target ((Ty.option type).ofItem target)) :
    value.Returns source target (type.ofItem target) := by
  intro markers item ordinary made readable field tags own plain taken behind
  obtain ⟨decoded, read, same⟩ := returns markers item ordinary made readable field tags own plain taken behind
  change ItemReader.option target (type.ofItem target) field tags item.body = _ at read
  rw [ItemReader.option] at read
  split at read
  · rw [taken] at read
    cases read
    cases same
  · obtain ⟨inner, found, rfl⟩ := map_eq_ok.mp read
    exact ⟨inner, found, Value.some.inj same⟩

theorem none_inObject (accords : target.Accords source) {element : Element} (object : element.object = true)
    (type : Ty) : Value.none.ReturnsIn source element ((Ty.option type).ofItem target) := by
  intro item made _
  have marked : element.markers.object = true := object
  rw [Value.item, if_pos marked] at made
  cases made
  obtain ⟨own, taken, -⟩ := exists_ownTags accords.valueTags element Item.emptyMap
  refine ⟨.none, ?_, rfl⟩
  have null : (element.valueItem source Item.emptyMap).body.isNull (Option.some element) :=
    .inr (.inr ⟨rfl, object⟩)
  change ItemReader.option target (type.ofItem target) _ _ _ = _
  rw [ItemReader.option, if_pos null, taken]
  rfl

theorem Returns.inObject (accords : target.Accords source) {type : Ty} (known : type.isRecord = true)
    {carried : String → List (Field Ty) → List (String × Value) → Prop} {present : Value → Prop}
    {value : Value} (held : type.Holds carried present value)
    (returns : value.Returns source target (type.ofItem target)) (something : ¬source.Voids (.some value))
    (element : Element) : (Value.some value).ReturnsIn source element ((Ty.option type).ofItem target) := by
  obtain ⟨name, fields, same, holds⟩ := Ty.exists_record known
  rw [same] at returns
  cases holds held with
  | @record _ _ values asked each =>
    intro item made readable
    obtain ⟨kept, found, rfl⟩ := map_eq_ok.mp made
    obtain ⟨own, taken, behind⟩ := exists_ownTags accords.valueTags element
      (Item.record source (source.shape name .keyed []) kept)
    have unmarked := returns {} _ rfl made readable (Option.some { element with object := false }) _ own
      rfl taken behind
    obtain ⟨decoded, read, canonical⟩ := unmarked
    have read : (Ty.record name fields).ofItem target (Option.some element)
        (element.valueItem source (Item.record source (source.shape name .keyed []) kept)).tagNumbers
        (Item.record source (source.shape name .keyed []) kept).body = .ok decoded := read
    have there := Item.present_record accords.keyed
      (fun nothing => something ⟨name, values, rfl, nothing⟩) found readable (Option.some element)
    refine ⟨.some decoded, ?_, congrArg Value.some canonical⟩
    change ItemReader.option target (type.ofItem target) _ _
      (Item.record source (source.shape name .keyed []) kept).body = _
    rw [ItemReader.option, if_neg there, same, read]
    rfl

end Value

theorem Ty.returns_objects (accords : target.Accords source) (type : Ty) {value : Value}
    (held : type.Holds source.CarriesObjects (fun held => held.isNull = false) value) :
    value.Returns source target (type.ofItem target) := by
  refine Ty.returns_of accords.regular (fun _ kept => kept) ?_ type value held
  intro name fields values carried each returns expected
  refine record_returns accords carried.toCarries (names_of_holdFields each) (fun pair member => ?_) expected
  rcases pair with ⟨field, ⟨other, value⟩⟩
  have back : value.Returns source target (field.type.ofItem target) := returns _ member
  cases object : ((source.recordShape name fields).elementNamed field.name).object with
  | false => exact back.inElement accords object
  | true =>
    obtain ⟨known, something⟩ := carried.objects _ member object
    have holds : field.type.Holds source.CarriesObjects (fun held => held.isNull = false) value :=
      holds_of_holdFields each _ member
    obtain ⟨type, same, struct⟩ := Ty.exists_option known
    dsimp only at something ⊢
    rw [same] at back holds ⊢
    cases holds with
    | none => exact Value.none_inObject accords object type
    | some kept held => exact back.ofSome.inObject accords struct held something _

namespace Config

-- A class that lists all fields of its type in their order, declares no defaults and has only options of
-- records for objects.
structure ListsObjects (config : Config) (name : String) (fields : List (Field Ty)) : Prop where
  distinct : (fields.map Field.name).Nodup
  ordered : (config.recordShape name fields).elements.map Element.name = fields.map Field.name
  required : ∀ element ∈ (config.recordShape name fields).elements, element.declaredDefault = none
  objects : ∀ field ∈ fields, ((config.recordShape name fields).elementNamed field.name).object = true →
    field.type.isObject = true

-- What is received for a field: nothing for an object that is written as nothing, else what it holds.
def Receives (config : Config) (shape : Shape) (entry received : String × Value) : Prop :=
  received.1 = entry.1 ∧
    ((shape.elementNamed entry.1).object = true ∧ config.Voids entry.2 ∧ received.2 = .none ∨
      ¬((shape.elementNamed entry.1).object = true ∧ config.Voids entry.2) ∧ received.2 = entry.2)

theorem ListsObjects.not_leavesOut {name : String} {fields : List (Field Ty)}
    (lists : source.ListsObjects name fields) (field : String) (value : Value) :
    ¬source.LeavesOut ((source.recordShape name fields).elementNamed field) value := by
  refine Config.not_leavesOut ?_ value
  rcases (source.recordShape name fields).elementNamed_mem_or field with listed | unlisted
  · exact lists.required _ listed
  · rw [unlisted]
    rfl

theorem exists_received (config : Config) (shape : Shape) (values : List (String × Value)) :
    ∃ received, List.Forall₂ (config.Receives shape) values received := by
  induction values with
  | nil => exact ⟨[], .nil⟩
  | cons entry values ih =>
    obtain ⟨received, others⟩ := ih
    by_cases void : (shape.elementNamed entry.1).object = true ∧ config.Voids entry.2
    · exact ⟨(entry.1, .none) :: received, .cons ⟨rfl, .inl ⟨void.1, void.2, rfl⟩⟩ others⟩
    · exact ⟨entry :: received, .cons ⟨rfl, .inr ⟨void, rfl⟩⟩ others⟩

end Config

section
variable {name : String} {fields : List (Field Ty)} {values received : List (String × Value)}

theorem Value.item_of_voids (keyed : ∀ descriptor ∈ source.descriptors, descriptor.kind = .keyed)
    {element : Element} (object : element.object = true) {value : Value} (void : source.Voids value)
    (written : source.Writes element value) :
    value.item source element.markers = Value.none.item source element.markers := by
  obtain ⟨item, made⟩ := (Config.writes_iff keyed element value).mp written
  obtain ⟨name, values, rfl, definite, framed, left⟩ := void
  have marked : element.markers.object = true := object
  obtain ⟨kept, found, rfl⟩ := map_eq_ok.mp made
  cases fieldItems_of_leftOut keyed left found
  rw [made, Value.item, if_pos marked, Item.record, framed]
  simp only [Item.map, List.map_nil, List.length_nil, Config.framing, definite, if_true]
  rfl

theorem fieldItems_of_receives (keyed : ∀ descriptor ∈ source.descriptors, descriptor.kind = .keyed)
    (receives : List.Forall₂ (source.Receives shape) values received)
    (written : ∀ entry ∈ values, source.Writes (shape.elementNamed entry.1) entry.2) :
    fieldItems source shape received = fieldItems source shape values := by
  induction receives with
  | nil => rfl
  | @cons entry got values received here others ih =>
    obtain ⟨writes, further⟩ := List.forall_mem_cons.mp written
    rcases entry with ⟨name, value⟩
    rcases got with ⟨other, value'⟩
    obtain ⟨same, cases'⟩ := here
    cases same
    have items : value'.item source (shape.elementNamed name).markers =
        value.item source (shape.elementNamed name).markers := by
      rcases cases' with ⟨object, void, same⟩ | ⟨-, same⟩
      · cases same
        exact (Value.item_of_voids keyed object void writes).symm
      · cases same
        rfl
    rw [fieldItems, fieldItems, ih further, items]

theorem holdFields_of_receives
    {carried : String → List (Field Ty) → List (String × Value) → Prop} {present : Value → Prop}
    (objects : ∀ field ∈ fields, (shape.elementNamed field.name).object = true → field.type.isObject = true)
    (held : Ty.HoldFields carried present fields values)
    (receives : List.Forall₂ (source.Receives shape) values received) :
    Ty.HoldFields carried present fields received := by
  induction fields generalizing values received with
  | nil =>
    cases held
    cases receives
    exact .nil
  | cons field fields ih =>
    cases held with
    | cons here others =>
      cases receives with
      | @cons _ got _ received first rest =>
        obtain ⟨known, objects⟩ := List.forall_mem_cons.mp objects
        rcases got with ⟨other, value'⟩
        obtain ⟨same, cases'⟩ := first
        cases same
        refine .cons ?_ (ih objects others rest)
        rcases cases' with ⟨object, void, same⟩ | ⟨-, same⟩
        · cases same
          obtain ⟨type, same, -⟩ := Ty.exists_option (known object)
          rw [same]
          exact .none type
        · cases same
          exact here

theorem not_voids_of_receives (receives : List.Forall₂ (source.Receives shape) values received)
    {entry : String × Value} (member : entry ∈ received)
    (object : (shape.elementNamed entry.1).object = true) : ¬source.Voids entry.2 := by
  induction receives with
  | nil => cases member
  | @cons first got values received here others ih =>
    rcases List.mem_cons.mp member with rfl | later
    · obtain ⟨same, ⟨-, -, nothing⟩ | ⟨something, kept⟩⟩ := here
      · rw [nothing]
        rintro ⟨name, values, same, -⟩
        cases same
      · rw [kept]
        exact fun void => something ⟨same ▸ object, void⟩
    · exact ih later

theorem carriesObjects_of_receives (lists : source.ListsObjects name fields)
    (names : received.map Prod.fst = fields.map Field.name)
    (receives : List.Forall₂ (source.Receives (source.recordShape name fields)) values received) :
    source.CarriesObjects name fields received where
  distinct := lists.distinct
  listed := fun field member => by
    rw [lists.ordered]
    exact List.mem_map_of_mem member
  ordered := fun _ => lists.ordered
  restored := fun pair _ left => absurd left (lists.not_leavesOut _ _)
  trailing := fun _ => List.pairwise_of_forall fun earlier later left => absurd left (lists.not_leavesOut _ _)
  objects := fun pair member object => by
    obtain ⟨present, inside⟩ := List.of_mem_zip member
    refine ⟨lists.objects _ present object, not_voids_of_receives receives inside ?_⟩
    rwa [← name_of_mem_zip names member]

-- A record with objects comes back from what is written of it, but for objects that are written as
-- nothing. Those are received as nothing.
theorem Config.decode_encode_objects (accords : target.Accords source)
    (lists : source.ListsObjects name fields)
    (held : Ty.HoldFields source.CarriesObjects (fun held => held.isNull = false) fields values)
    (written : ∀ entry ∈ values, source.Writes ((source.recordShape name fields).elementNamed entry.1) entry.2) :
    ∃ output, source.encode (.record name values) = .ok output ∧ (output.length < 2 ^ 64 →
      ∃ received decoded, List.Forall₂ (source.Receives (source.recordShape name fields)) values received ∧
        target.decode (.record name fields) output = .ok decoded ∧
        decoded.canonical = (Value.record name received).canonical) := by
  obtain ⟨received, receives⟩ := source.exists_received (source.recordShape name fields) values
  have elements : (source.shape name .keyed []).elementNamed = (source.recordShape name fields).elementNamed :=
    source.elementNamed_shape name .keyed [] _
  obtain ⟨kept, made⟩ := exists_fieldItems accords.keyed written
  have built : (Value.record name values).item source {} =
      .ok (Item.record source (source.shape name .keyed []) kept) := by
    rw [Value.item, fieldItems_congr elements, made, ok_map]
  have rebuilt : (Value.record name received).item source {} =
      .ok (Item.record source (source.shape name .keyed []) kept) := by
    rw [Value.item, fieldItems_congr elements, fieldItems_of_receives accords.keyed receives written, made,
      ok_map]
  have encoded := Config.encode_eq_wire accords.keyed (.record name values)
  rw [built, ok_map] at encoded
  refine ⟨_, encoded, fun small => ?_⟩
  obtain ⟨item, built', same, readable⟩ := Config.readable_of_encode accords.keyed encoded small
  cases Except.ok.inj (built.symm.trans built')
  rw [same]
  have holds := holdFields_of_receives lists.objects held receives
  have returns := Ty.returns_objects accords (.record name fields)
    (.record (carriesObjects_of_receives lists (names_of_holdFields holds) receives) holds)
  obtain ⟨decoded, read, canonical⟩ := (returns {} _ rfl rebuilt readable).on
  refine ⟨received, decoded, receives, ?_, canonical⟩
  rw [Config.decode_bytes accords.regular _ readable]
  exact read

end

section
def Config.messages : Config :=
  { definiteLengths := true
    descriptors := [⟨"Message", .keyed, none,
        [⟨"protected", some 1, [], [], false, true, none⟩,
          ⟨"unprotected", some 2, [], [], false, true, none⟩]⟩,
      ⟨"Header", .keyed, none, [⟨"algorithm", some 1, [], [], false, false, some .null⟩]⟩] }

def Ty.headerFields : List (Field Ty) := [⟨"algorithm", .option (.int .i32), none⟩]

def Ty.messageFields : List (Field Ty) :=
  [⟨"protected", .option (.record "Header" Ty.headerFields), none⟩,
    ⟨"unprotected", .option (.record "Header" Ty.headerFields), none⟩]

def Value.header (algorithm : Value) : Value := .record "Header" [("algorithm", algorithm)]

def Value.emptyHeader : Value := .header .none

def Value.sevenHeader : Value := .header (.some (.int .i32 7))

def Value.message (first second : Value) : List (String × Value) :=
  [("protected", first), ("unprotected", second)]

theorem Config.accords_messages : Config.messages.Accords Config.messages := by
  refine ⟨rfl, fun descriptor member => ?_, fun descriptor member => ?_, fun _ => rfl, fun _ => rfl⟩
  · rcases List.mem_pair.mp member with rfl | rfl <;> rfl
  · rcases List.mem_pair.mp member with rfl | rfl <;> exact ⟨by decide, by decide⟩

theorem Config.lists_messages : Config.messages.ListsObjects "Message" Ty.messageFields := by
  refine ⟨by decide, rfl, fun element member => ?_, fun field member _ => ?_⟩
  · rcases List.mem_pair.mp member with rfl | rfl <;> rfl
  · rcases List.mem_pair.mp member with rfl | rfl <;> rfl

theorem Config.carries_header {algorithm : Value}
    (noneOrSeven : algorithm = .none ∨ algorithm = .some (.int .i32 7)) :
    Config.messages.CarriesObjects "Header" Ty.headerFields [("algorithm", algorithm)] := by
  refine ⟨⟨⟨by decide, by decide, nofun, fun pair member left => ?_⟩, nofun⟩, fun pair member object => ?_⟩
  · cases List.mem_singleton.mp member
    rcases noneOrSeven with rfl | rfl
    · exact ⟨.none, rfl, rfl⟩
    · obtain ⟨-, standard, declared, encoded⟩ := left
      cases declared
      exact absurd encoded (by decide)
  · cases List.mem_singleton.mp member
    cases object

theorem Value.holds_header {algorithm : Value}
    (noneOrSeven : algorithm = .none ∨ algorithm = .some (.int .i32 7)) :
    (Ty.option (.record "Header" Ty.headerFields)).Holds Config.messages.CarriesObjects
      (fun held => held.isNull = false) (.some (.header algorithm)) := by
  refine .some rfl (.record (Config.carries_header noneOrSeven) (.cons ?_ .nil))
  rcases noneOrSeven with rfl | rfl
  · exact .none _
  · exact .some rfl (.int rfl)

theorem Config.decode_messages :
    Config.messages.encode
        (.record "Message" (Value.message (.some Value.emptyHeader) (.some Value.sevenHeader))) =
      .ok [0xa2, 0x01, 0xa0, 0x02, 0xa1, 0x01, 0x07] ∧
      ∃ received decoded,
        List.Forall₂ (Config.messages.Receives (Config.messages.recordShape "Message" Ty.messageFields))
          (Value.message (.some Value.emptyHeader) (.some Value.sevenHeader)) received ∧
        Config.messages.decode (.record "Message" Ty.messageFields) [0xa2, 0x01, 0xa0, 0x02, 0xa1, 0x01, 0x07] =
          .ok decoded ∧
        decoded.canonical = (Value.record "Message" received).canonical := by
  have encoded : Config.messages.encode
      (.record "Message" (Value.message (.some Value.emptyHeader) (.some Value.sevenHeader))) =
        .ok [0xa2, 0x01, 0xa0, 0x02, 0xa1, 0x01, 0x07] := by rfl
  obtain ⟨output, same, comes⟩ := Config.decode_encode_objects Config.accords_messages Config.lists_messages
    (.cons (Value.holds_header (.inl rfl)) (.cons (Value.holds_header (.inr rfl)) .nil))
    (List.forall_mem_cons.mpr ⟨⟨_, rfl⟩, List.forall_mem_singleton.mpr ⟨_, rfl⟩⟩)
  cases Except.ok.inj (encoded.symm.trans same)
  exact ⟨encoded, comes (by decide)⟩

def Config.twinMessages : Config :=
  { descriptors := [⟨"Message", .keyed, none,
      [⟨"protected", some 1, [], [], false, true, none⟩,
        ⟨"unprotected", some 1, [], [], false, true, none⟩]⟩] }

-- A header of which nothing is written is not told from none. Nor are headers under one label told apart,
-- though both are none.
theorem Config.decode_confuses_headers :
    (Config.messages.Accords Config.messages ∧
      Config.messages.ListsObjects "Message" Ty.messageFields ∧
      Ty.HoldFields Config.messages.CarriesObjects (fun held => held.isNull = false) Ty.messageFields
        (Value.message (.some Value.emptyHeader) .none) ∧
      Config.messages.encode (.record "Message" (Value.message (.some Value.emptyHeader) .none)) =
        .ok [0xa2, 0x01, 0xa0, 0x02, 0xa0] ∧
      Config.messages.decode (.record "Message" Ty.messageFields) [0xa2, 0x01, 0xa0, 0x02, 0xa0] =
        .ok (.record "Message" (Value.message .none .none)) ∧
      (Value.record "Message" (Value.message .none .none)).canonical ≠
        (Value.record "Message" (Value.message (.some Value.emptyHeader) .none)).canonical) ∧
    Config.twinMessages.ListsObjects "Message" Ty.messageFields ∧
      Ty.HoldFields Config.twinMessages.CarriesObjects (fun held => held.isNull = false) Ty.messageFields
        (Value.message .none .none) ∧
      Config.twinMessages.encode (.record "Message" (Value.message .none .none)) =
        .ok [0xbf, 0x01, 0xa0, 0x01, 0xa0, 0xff] ∧
      Config.twinMessages.decode (.record "Message" Ty.messageFields) [0xbf, 0x01, 0xa0, 0x01, 0xa0, 0xff] =
        .error (.mismatch (.duplicateField "protected")) := by
  refine ⟨⟨Config.accords_messages, Config.lists_messages, ?_, rfl, rfl, ?_⟩, ?_, ?_, rfl, rfl⟩
  · exact .cons (Value.holds_header (.inl rfl)) (.cons (.none _) .nil)
  · simp [Value.message, Value.emptyHeader, Value.header, Value.canonicalFields]
  · refine ⟨by decide, rfl, fun element member => ?_, fun field member _ => ?_⟩
    · rcases List.mem_pair.mp member with rfl | rfl <;> rfl
    · rcases List.mem_pair.mp member with rfl | rfl <;> rfl
  · exact .cons (.none _) (.cons (.none _) .nil)

end
end TypedCbor
