import TypedCbor.Encoder.Value
import TypedCbor.Proofs.Item.Wire
import TypedCbor.Proofs.Outcome
import TypedCbor.Proofs.Value

namespace TypedCbor

def Config.framing (config : Config) (count : Nat) : Framing :=
  if config.definiteLengths then .counted (.narrowest count) else .delimited

namespace Item

def ofWord (n : UInt64) : Item := ⟨[], .unsigned (.shortest n.toNat)⟩

def ofSigned (n : Int64) : Item :=
  if 0 ≤ n then ofWord n.toUInt64 else ⟨[], .negative (.shortest (~~~n).toUInt64.toNat)⟩

def ofWide (n : Int) : Except Error Item :=
  match n with
  | .ofNat m =>
    if m < UInt64.size then .ok ⟨[], .unsigned (.shortest m)⟩ else .error (.unsupported (.bignum n))
  | .negSucc m =>
    if m < UInt64.size then .ok ⟨[], .negative (.shortest m)⟩ else .error (.unsupported (.bignum n))

def ofInt (kind : IntKind) (n : Int) : Except Error Item :=
  match kind with
  | .i8 | .i16 | .i32 | .i64 => .ok (ofSigned (Int64.ofInt n))
  | .u8 | .u16 | .u32 | .u64 => .ok (ofWord (UInt64.ofNat n.toNat))
  | .i128 | .u128 => ofWide n

def ofBytes (content : Bytes) : Item := ⟨[], .bytes (.whole ⟨.narrowest content.length, content⟩)⟩

def ofText (content : String) : Item :=
  let utf8 := Bytes.ofText content
  ⟨[], .text (.whole ⟨.narrowest utf8.length, utf8⟩)⟩

def simple (width : Width) (n : Nat) : Item := ⟨[], .simple ⟨width, n⟩⟩

def ofBool (value : Bool) : Item := simple .immediate (if value then trueInfo else falseInfo)

def null : Item := simple .immediate 22

def emptyMap : Item := ⟨[], .map (.counted .immediate) []⟩

def compact (bits : UInt64) : Item :=
  if Ieee.isNaN bits then simple .two Wire.canonicalNaN.toNat
  else if Ieee.doubleOfHalf (Ieee.halfOfDouble bits) = bits then
    simple .two (Ieee.halfOfDouble bits).toNat
  else if Ieee.doubleOfSingle (Ieee.singleOfDouble bits) = bits then
    simple .four (Ieee.singleOfDouble bits).toNat
  else simple .eight bits.toNat

def ofSingle (form : Wire.FloatForm) (bits : UInt32) : Item :=
  match form with
  | .fixed => simple .four bits.toNat
  | .shortest => compact (Ieee.doubleOfSingle bits)

def ofDouble (form : Wire.FloatForm) (bits : UInt64) : Item :=
  match form with
  | .fixed => simple .eight bits.toNat
  | .shortest => compact bits

def array (config : Config) (items : List Item) : Item :=
  ⟨[], .array (config.framing items.length) items⟩

def map (config : Config) (entries : List (Item × Item)) : Item :=
  ⟨[], .map (config.framing entries.length) entries⟩

def tagged (tags : List UInt64) (item : Item) : Item :=
  ⟨tags.map (fun tag => .shortest tag.toNat) ++ item.tags, item.body⟩

theorem body_tagged (tags : List UInt64) (item : Item) : (item.tagged tags).body = item.body := rfl

end Item

namespace Element

def keyItem (config : Config) (element : Element) : Item :=
  Item.tagged (if config.writeKeyTags then element.keyTags else [])
    (match element.label with
    | some label => if config.preferLabels then .ofSigned label else .ofText element.name
    | none => .ofText element.name)

def valueItem (config : Config) (element : Element) (item : Item) : Item :=
  item.tagged (if config.writeValueTags then element.valueTags else [])

def leavesOut (config : Config) (element : Element) (item : Item) : Bool :=
  match element.declaredDefault, config.encodeDefaults with
  | some value, false => item.wire == value.encoded config element
  | _, _ => false

end Element

def Item.record (config : Config) (shape : Shape) (fields : List (Element × Item)) : Item :=
  match shape.arrayTags with
  | some tags => (array config (fields.map fun field => field.1.valueItem config field.2)).tagged tags
  | none => map config (fields.map fun field => (field.1.keyItem config, field.1.valueItem config field.2))

mutual
@[simp] def Value.item (config : Config) : Value → Markers → Except Error Item
  | .bool value, _ => .ok (.ofBool value)
  | .int kind n, _ => Item.ofInt kind n
  | .single bits, _ => .ok (.ofSingle config.floatForm bits)
  | .double bits, _ => .ok (.ofDouble config.floatForm bits)
  | .char c, _ => .ok (.ofWord c.val.toUInt64)
  | .text content, _ => .ok (.ofText content)
  | .bytes content, _ => .ok (.ofBytes content)
  | .unit, markers | .none, markers => .ok (if markers.object then .emptyMap else .null)
  | .some value, markers | .newtype value, markers | .visited _ value, markers =>
    value.item config markers
  | .seq items, markers =>
    if markers.byteString || config.byteStrings then collectedItem config items []
    else .array config <$> valueItems config items
  | .tuple items, _ => .array config <$> valueItems config items
  | .map entries, _ => .map config <$> entryItems config entries
  | .record name fields, _ =>
    .record config (config.shape name .keyed []) <$>
      fieldItems config (config.shape name .keyed []) fields
  | .unitVariant name, _ => .ok (.ofText name)
  | .variant name content, _ =>
    (fun item => .array config [.ofText name, item]) <$> content.item config {}
  | .embedded value _, _ =>
    (fun item => ⟨[], .embedded (.narrowest item.bytes.length) item⟩) <$> value.item config {}

def valueItems (config : Config) : List Value → Except Error (List Item)
  | [] => .ok []
  | value :: values => do
    let item ← value.item config {}
    return item :: (← valueItems config values)

-- A sequence of bytes is a byte string up to its end, or an array with its first bytes as numbers.
def collectedItem (config : Config) : List Value → Bytes → Except Error Item
  | [], collected => .ok (.ofBytes collected)
  | value :: values, collected =>
    match value.asByte with
    | some byte => collectedItem config values (collected ++ [byte])
    | none => do
      let item ← value.item config {}
      let items ← valueItems config values
      return .array config (collected.map (fun byte => .ofWord byte.toUInt64) ++ item :: items)

def entryItems (config : Config) : List (Value × Value) → Except Error (List (Item × Item))
  | [] => .ok []
  | (key, value) :: entries => do
    let first ← key.item config {}
    let second ← value.item config {}
    return (first, second) :: (← entryItems config entries)

def fieldItems (config : Config) (shape : Shape) :
    List (String × Value) → Except Error (List (Element × Item))
  | [] => .ok []
  | (name, value) :: fields => do
    let element := shape.elementNamed name
    let item ← value.item config element.markers
    let items ← fieldItems config shape fields
    return if element.leavesOut config item then items else (element, item) :: items
end

theorem Config.framed_eq (config : Config) (major : Major) (count : Nat) (body : Bytes) :
    config.framed major count body =
      Wire.header major ((config.framing count).announced count) ++
        (body ++ (config.framing count).closing) := by
  unfold Config.framed Config.framing
  split
  · simp [Framing.announced, Framing.closing]
  · simp [Framing.announced, Framing.closing]

namespace Item

theorem wire_tagged (tags : List UInt64) (item : Item) :
    (item.tagged tags).wire = Wire.tags tags ++ item.wire := by
  rcases item with ⟨own, body⟩
  simp only [tagged, wire, tags_mk, body_mk, List.map_append, Head.map_number_shortest, Wire.tags,
    List.flatMap_append, List.append_assoc]

theorem wire_ofWord (n : UInt64) : (ofWord n).wire = Wire.unsigned n :=
  congrArg (Wire.head .unsigned) UInt64.ofNat_toNat

theorem wire_ofSigned (n : Int64) : (ofSigned n).wire = Wire.signed n := by
  unfold ofSigned Wire.signed
  split
  · exact wire_ofWord _
  · exact congrArg (Wire.head .negative) UInt64.ofNat_toNat

theorem ofWide_eq (n : Int) : Wire.wide n = wire <$> ofWide n := by
  unfold Wire.wide ofWide
  cases n <;> (dsimp only; split <;> rfl)

theorem ofInt_eq (kind : IntKind) (n : Int) : kind.item n = wire <$> ofInt kind n := by
  cases kind with
  | i8 | i16 | i32 | i64 => exact congrArg Except.ok (wire_ofSigned _).symm
  | u8 | u16 | u32 | u64 => exact congrArg Except.ok (wire_ofWord _).symm
  | i128 | u128 => exact ofWide_eq n

theorem wire_ofText (content : String) : (ofText content).wire = Wire.text content := by
  simp [ofText, wire, bodyWire, Wire.tags, Wire.text]

theorem wire_ofBytes (content : Bytes) : (ofBytes content).wire = Wire.bytes content := by
  simp [ofBytes, wire, bodyWire, Wire.tags]

theorem wire_ofBool (value : Bool) : (ofBool value).wire = Wire.bool value := by
  cases value <;> rfl

theorem wire_compact (bits : UInt64) : (compact bits).wire = Wire.compact bits := by
  unfold compact Wire.compact
  split
  · rfl
  split
  · rfl
  split
  · rfl
  · rfl

theorem wire_ofSingle (form : Wire.FloatForm) (bits : UInt32) :
    (ofSingle form bits).wire = Wire.single form bits := by
  cases form with
  | fixed => rfl
  | shortest => exact wire_compact _

theorem wire_ofDouble (form : Wire.FloatForm) (bits : UInt64) :
    (ofDouble form bits).wire = Wire.double form bits := by
  cases form with
  | fixed => rfl
  | shortest => exact wire_compact _

theorem wire_array (config : Config) (items : List Item) :
    (array config items).wire = config.framed .array items.length (itemsWire items) := by
  rw [config.framed_eq]
  rfl

theorem wire_map (config : Config) (entries : List (Item × Item)) :
    (map config entries).wire = config.framed .map entries.length (entriesWire entries) := by
  rw [config.framed_eq]
  rfl

end Item

theorem itemsWire_append (left right : List Item) :
    itemsWire (left ++ right) = itemsWire left ++ itemsWire right := by
  induction left with
  | nil => rfl
  | cons item left ih => simp [itemsWire, ih]

namespace Element

theorem wire_keyItem (config : Config) (element : Element) :
    (element.keyItem config).wire =
      (if config.writeKeyTags then Wire.tags element.keyTags else []) ++ element.key config := by
  unfold keyItem key
  rw [Item.wire_tagged, apply_ite Wire.tags]
  congr 1
  cases element.label with
  | none => exact Item.wire_ofText _
  | some label =>
    dsimp only
    split
    · exact Item.wire_ofSigned label
    · exact Item.wire_ofText _

theorem wire_valueItem (config : Config) (element : Element) (item : Item) :
    (element.valueItem config item).wire =
      (if config.writeValueTags then Wire.tags element.valueTags else []) ++ item.wire := by
  unfold valueItem
  rw [Item.wire_tagged, apply_ite Wire.tags]
  rfl

end Element

theorem Config.kind_shape {config : Config}
    (keyed : ∀ descriptor ∈ config.descriptors, descriptor.kind = .keyed) (name : String)
    (fields : List String) : (config.shape name .keyed fields).kind = .keyed := by
  unfold Config.shape
  split
  · rename_i descriptor found
    exact keyed descriptor (List.mem_of_find?_eq_some found)
  · rfl

-- Writing a value adds one item to the innermost structure and leaves no marker set.
def Value.Written (config : Config) (value : Value) : Prop :=
  ∀ encoder, value.encode config encoder =
    (fun item => encoder.put item.wire) <$> value.item config encoder.markers

namespace Encoder

variable {config : Config} {shape : Shape}

def inside (outer : Encoder) (bytes : Bytes) (count : Nat) : Encoder :=
  ⟨outer.output, ⟨bytes, count⟩ :: outer.stack, {}⟩

theorem put_inside (outer : Encoder) (bytes item : Bytes) (count : Nat) :
    (outer.inside bytes count).put item = outer.inside (bytes ++ item) count := rfl

theorem introduction_anonymous (unkeyed : shape.hasKeys = false) :
    Element.anonymous.introduction config shape = [] := by
  unfold Element.introduction
  rw [unkeyed, if_neg Bool.false_ne_true]
  cases config.writeValueTags <;> rfl

theorem announce_anonymous (unkeyed : shape.hasKeys = false) (outer : Encoder) (bytes : Bytes)
    (count : Nat) :
    (outer.inside bytes count).announce config shape .anonymous = outer.inside bytes (count + 1) := by
  rw [announce, introduction_anonymous unkeyed]
  simp only [append, inside, List.append_nil]
  rfl

theorem endStructure_inside (outer : Encoder) (bytes : Bytes) (count : Nat) :
    (outer.inside bytes count).endStructure config shape =
      .ok (outer.put (shape.enclosed config ⟨bytes, count⟩)) := rfl

theorem encodeItems_eq {values : List Value} (each : ∀ value ∈ values, value.Written config)
    (outer : Encoder) (bytes : Bytes) (count : Nat) :
    encodeItems config values (outer.inside bytes count) =
      (fun items => outer.inside (bytes ++ itemsWire items) (count + items.length)) <$>
        valueItems config values := by
  induction values generalizing bytes count with
  | nil => simp [encodeItems, valueItems, itemsWire]
  | cons value values ih =>
    obtain ⟨here, others⟩ := List.forall_mem_cons.mp each
    rw [encodeItems, valueItems, next, announce_anonymous rfl, here]
    change (_ <$> value.item config {}) >>= _ = _
    cases value.item config {} with
    | error e => rfl
    | ok item =>
      simp only [ok_map, ok_bind, put_inside, ih others]
      cases valueItems config values with
      | error e => rfl
      | ok items =>
        change _ = Except.ok (outer.inside (bytes ++ itemsWire (item :: items)) _)
        rw [itemsWire, List.length_cons, ok_map, List.append_assoc, Nat.add_assoc, Nat.add_comm 1]

theorem encodeEntries_eq {entries : List (Value × Value)}
    (each : ∀ entry ∈ entries, entry.1.Written config ∧ entry.2.Written config)
    (outer : Encoder) (bytes : Bytes) (count : Nat) :
    encodeEntries config entries (outer.inside bytes count) =
      (fun items => outer.inside (bytes ++ entriesWire items) (count + 2 * items.length)) <$>
        entryItems config entries := by
  induction entries generalizing bytes count with
  | nil => simp [encodeEntries, entryItems, entriesWire]
  | cons entry entries ih =>
    obtain ⟨⟨first, second⟩, others⟩ := List.forall_mem_cons.mp each
    rcases entry with ⟨key, value⟩
    rw [encodeEntries, entryItems, next, announce_anonymous rfl, first]
    change (_ <$> key.item config {}) >>= _ = _
    cases key.item config {} with
    | error e => rfl
    | ok keyItem =>
      simp only [ok_map, ok_bind, put_inside]
      rw [next, announce_anonymous rfl, second]
      change (_ <$> value.item config {}) >>= _ = _
      cases value.item config {} with
      | error e => rfl
      | ok valueItem =>
        simp only [ok_map, ok_bind, put_inside, ih others]
        cases entryItems config entries with
        | error e => rfl
        | ok items =>
          change Except.ok _ = Except.ok _
          simp only [entriesWire, List.length_cons, List.append_assoc]
          congr 2
          omega

theorem replay_eq (collected : Bytes) (outer : Encoder) (bytes : Bytes) (count : Nat) :
    collected.foldl (fun encoder byte => (encoder.next config .list).put (Wire.unsigned byte.toUInt64))
        (outer.inside bytes count) =
      outer.inside (bytes ++ itemsWire (collected.map fun byte => .ofWord byte.toUInt64))
        (count + collected.length) := by
  induction collected generalizing bytes count with
  | nil => simp [itemsWire]
  | cons byte collected ih =>
    rw [List.foldl_cons, next, announce_anonymous rfl, put_inside, ih, List.map_cons, itemsWire,
      Item.wire_ofWord, List.append_assoc, List.length_cons, Nat.add_assoc, Nat.add_comm 1]

theorem collectItems_eq {values : List Value} (each : ∀ value ∈ values, value.Written config)
    (collected : Bytes) (outer : Encoder) :
    collectItems config values collected outer.unmarked =
      (fun item => outer.put item.wire) <$> collectedItem config values collected := by
  induction values generalizing collected with
  | nil => exact congrArg (fun item => Except.ok (outer.put item)) (Item.wire_ofBytes collected).symm
  | cons value values ih =>
    obtain ⟨here, others⟩ := List.forall_mem_cons.mp each
    rw [collectItems, collectedItem]
    cases value.asByte with
    | some byte => exact ih others _
    | none =>
      have replayed : outer.unmarked.replay config collected =
          outer.inside (itemsWire (collected.map fun byte => .ofWord byte.toUInt64)) collected.length :=
        (replay_eq collected outer [] 0).trans (by rw [List.nil_append, Nat.zero_add])
      dsimp only
      rw [replayed, next, announce_anonymous rfl, here]
      change (_ <$> value.item config {}) >>= _ = _
      cases value.item config {} with
      | error e => rfl
      | ok item =>
        simp only [ok_map, ok_bind, put_inside, encodeItems_eq others]
        cases valueItems config values with
        | error e => rfl
        | ok items =>
          change Except.ok (outer.put (config.framed .array _ _)) = Except.ok (outer.put (Item.wire _))
          rw [Item.wire_array, itemsWire_append, itemsWire, List.length_append, List.length_map,
            List.length_cons, Nat.add_assoc, Nat.add_comm 1, List.append_assoc]

theorem encodeArray_eq {values : List Value} (each : ∀ value ∈ values, value.Written config)
    (outer : Encoder) :
    (encodeItems config values outer.unmarked.beginStructure >>= fun encoder =>
        encoder.endStructure config .list) =
      (fun item => outer.put item.wire) <$> (Item.array config <$> valueItems config values) := by
  change encodeItems config values (outer.inside [] 0) >>= _ = _
  rw [encodeItems_eq each]
  cases valueItems config values with
  | error e => rfl
  | ok items =>
    simp only [ok_map, ok_bind, endStructure_inside, Item.wire_array, List.nil_append, Nat.zero_add]
    rfl

def fieldsWire (config : Config) (shape : Shape) (fields : List (Element × Item)) : Bytes :=
  fields.flatMap fun field => field.1.introduction config shape ++ field.2.wire

theorem announce_put (element : Element) (outer : Encoder) (bytes item : Bytes) (count : Nat) :
    ((outer.inside bytes count).announce config shape element).put item =
      outer.inside (bytes ++ (element.introduction config shape ++ item)) (count + 1) := by
  rw [← List.append_assoc]
  rfl

theorem detached_eq {value : Value} (written : value.Written config) (element : Element)
    (outer : Encoder) (bytes : Bytes) (count : Nat) :
    (outer.inside bytes count).detached element (value.encode config) =
      (fun item => (item.wire, outer.inside bytes count)) <$> value.item config element.markers := by
  unfold detached
  rw [written]
  dsimp only
  cases value.item config element.markers <;> rfl

theorem field_eq {value : Value} (written : value.Written config) (element : Element)
    (outer : Encoder) (bytes : Bytes) (count : Nat) :
    (outer.inside bytes count).field config shape element (value.encode config) =
      (fun item =>
        if element.leavesOut config item then outer.inside bytes count
        else outer.inside (bytes ++ (element.introduction config shape ++ item.wire)) (count + 1)) <$>
        value.item config element.markers := by
  unfold field Element.leavesOut
  have direct : value.encode config ((outer.inside bytes count).announce config shape element) =
      (fun item => outer.inside (bytes ++ (element.introduction config shape ++ item.wire)) (count + 1)) <$>
        value.item config element.markers := by
    simp only [written _, announce_put]
    rfl
  cases element.declaredDefault with
  | none => exact direct
  | some standard =>
    cases defaults : config.encodeDefaults with
    | true => exact direct
    | false =>
      simp only [detached_eq written, offer, defaults]
      cases value.item config element.markers with
      | error e => rfl
      | ok item =>
        simp only [ok_map, ok_bind]
        by_cases same : (item.wire == standard.encoded config element) = true
        · simp only [same, Bool.not_false, Bool.and_true, if_true, Bool.false_eq_true, if_false]
          rfl
        · simp only [same, Bool.not_false, Bool.and_true, Bool.false_eq_true, if_true, if_false,
            announce_put]
          rfl

theorem encodeFields_eq {fields : List (String × Value)}
    (each : ∀ field ∈ fields, field.2.Written config) (outer : Encoder) (bytes : Bytes) (count : Nat) :
    encodeFields config shape fields (outer.inside bytes count) =
      (fun items => outer.inside (bytes ++ fieldsWire config shape items) (count + items.length)) <$>
        fieldItems config shape fields := by
  induction fields generalizing bytes count with
  | nil => simp [encodeFields, fieldItems, fieldsWire]
  | cons field fields ih =>
    obtain ⟨here, others⟩ := List.forall_mem_cons.mp each
    rcases field with ⟨name, value⟩
    rw [encodeFields, fieldItems, field_eq here]
    cases value.item config (shape.elementNamed name).markers with
    | error e => rfl
    | ok item =>
      simp only [ok_map, ok_bind]
      cases (shape.elementNamed name).leavesOut config item with
      | true =>
        simp only [if_true, ih others]
        cases fieldItems config shape fields <;> rfl
      | false =>
        simp only [Bool.false_eq_true, if_false, ih others]
        cases fieldItems config shape fields with
        | error e => rfl
        | ok items =>
          change Except.ok _ = Except.ok _
          simp only [fieldsWire, List.flatMap_cons, List.append_assoc, List.length_cons]
          congr 2
          omega

theorem enclosed_fields (keyed : shape.kind = .keyed) (fields : List (Element × Item)) :
    shape.enclosed config ⟨fieldsWire config shape fields, fields.length⟩ =
      (Item.record config shape fields).wire := by
  unfold Shape.enclosed Item.record
  cases framed : shape.arrayTags with
  | some tags =>
    have positioned : shape.hasKeys = false := by simp [Shape.hasKeys, Shape.isArrayFramed, framed]
    have same : fieldsWire config shape fields =
        itemsWire (fields.map fun field => field.1.valueItem config field.2) := by
      induction fields with
      | nil => rfl
      | cons field fields ih =>
        rw [List.map_cons, itemsWire, ← ih, Element.wire_valueItem, fieldsWire, List.flatMap_cons,
          Element.introduction, positioned]
        rfl
    rw [Item.wire_tagged, Item.wire_array, List.length_map, same]
  | none =>
    have named : shape.hasKeys = true := by simp [Shape.hasKeys, Shape.isArrayFramed, framed, keyed]
    have same : fieldsWire config shape fields =
        entriesWire (fields.map fun field => (field.1.keyItem config, field.1.valueItem config field.2)) := by
      induction fields with
      | nil => rfl
      | cons field fields ih =>
        rw [List.map_cons, entriesWire, ← ih, Element.wire_keyItem, Element.wire_valueItem, fieldsWire,
          List.flatMap_cons, Element.introduction, named, if_pos rfl]
        simp only [List.append_assoc]
        rfl
    rw [keyed, Item.wire_map, List.length_map, same]

theorem written_map {entries : List (Value × Value)}
    (each : ∀ entry ∈ entries, entry.1.Written config ∧ entry.2.Written config) :
    (Value.map entries).Written config := by
  intro outer
  rw [Value.encode, Value.item]
  change encodeEntries config entries (outer.inside [] 0) >>= _ = _
  rw [encodeEntries_eq each]
  cases entryItems config entries with
  | error e => rfl
  | ok items =>
    simp only [ok_map, ok_bind, endStructure_inside, Item.wire_map, Shape.enclosed, List.nil_append,
      Nat.zero_add, Nat.mul_div_cancel_left _ Nat.two_pos]
    rfl

theorem written_record (keyed : ∀ descriptor ∈ config.descriptors, descriptor.kind = .keyed)
    (name : String) {fields : List (String × Value)} (each : ∀ field ∈ fields, field.2.Written config) :
    (Value.record name fields).Written config := by
  intro outer
  rw [Value.encode, Value.item]
  change encodeFields config (config.shape name .keyed []) fields (outer.inside [] 0) >>= _ = _
  rw [encodeFields_eq each]
  cases fieldItems config (config.shape name .keyed []) fields with
  | error e => rfl
  | ok items =>
    simp only [ok_map, ok_bind, endStructure_inside, List.nil_append, Nat.zero_add,
      enclosed_fields (Config.kind_shape keyed name [])]

theorem openVariant_eq (name : String) (outer : Encoder) :
    outer.openVariant config name = outer.inside (Wire.text name) 2 := by
  change (((outer.inside [] 0).announce config .polymorphic .anonymous).put (Wire.text name)).announce
    config .polymorphic .anonymous = _
  rw [announce_anonymous rfl, put_inside, announce_anonymous rfl]
  rfl

theorem written_variant (name : String) {content : Value} (written : content.Written config) :
    (Value.variant name content).Written config := by
  intro outer
  rw [Value.encode, Value.item, openVariant_eq, written]
  change (_ <$> content.item config {}) >>= _ = _
  cases content.item config {} with
  | error e => rfl
  | ok item =>
    simp only [ok_map, ok_bind, put_inside, endStructure_inside, Item.wire_array, itemsWire,
      Item.wire_ofText, List.append_nil]
    rfl

theorem written_embedded (serialized : Option Bytes) {value : Value} (written : value.Written config) :
    (Value.embedded value serialized).Written config := by
  intro outer
  rw [Value.encode, Value.item, written]
  change (_ <$> value.item config {}) >>= _ = _
  cases value.item config {} with
  | error e => rfl
  | ok item => rfl

theorem encode_written (keyed : ∀ descriptor ∈ config.descriptors, descriptor.kind = .keyed)
    (value : Value) : value.Written config := by
  induction value using Value.induction with
  | step value ih =>
    intro outer
    cases value with
    | bool value => exact congrArg (fun item => Except.ok (outer.put item)) (Item.wire_ofBool value).symm
    | int kind n =>
      rw [Value.encode, Value.item, Item.ofInt_eq]
      cases Item.ofInt kind n <;> rfl
    | single bits =>
      exact congrArg (fun item => Except.ok (outer.put item)) (Item.wire_ofSingle _ bits).symm
    | double bits =>
      exact congrArg (fun item => Except.ok (outer.put item)) (Item.wire_ofDouble _ bits).symm
    | char c => exact congrArg (fun item => Except.ok (outer.put item)) (Item.wire_ofWord _).symm
    | text content | unitVariant content =>
      exact congrArg (fun item => Except.ok (outer.put item)) (Item.wire_ofText content).symm
    | bytes content =>
      exact congrArg (fun item => Except.ok (outer.put item)) (Item.wire_ofBytes content).symm
    | unit | none =>
      rw [Value.encode, Value.item, putNull]
      cases outer.markers.object <;> rfl
    | some value | newtype value => exact ih value (by simp [Value.parts]) outer
    | visited how value => exact ih value (by simp [Value.parts]) outer
    | seq items =>
      rw [Value.encode, Value.item]
      split
      · exact collectItems_eq ih [] outer
      · exact encodeArray_eq ih outer
    | tuple items => exact encodeArray_eq ih outer
    | map entries =>
      have each (entry : Value × Value) (member : entry ∈ entries) :
          entry.1.Written config ∧ entry.2.Written config :=
        ⟨ih _ (mem_flattened.mpr ⟨entry, member, .inl rfl⟩),
          ih _ (mem_flattened.mpr ⟨entry, member, .inr rfl⟩)⟩
      exact written_map each outer
    | record name fields =>
      have each (field : String × Value) (member : field ∈ fields) : field.2.Written config :=
        ih field.2 (List.mem_map_of_mem member)
      exact written_record keyed name each outer
    | variant name content => exact written_variant name (ih content (by simp [Value.parts])) outer
    | embedded value serialized =>
      exact written_embedded serialized (ih value (by simp [Value.parts])) outer

end Encoder

end TypedCbor
