import TypedCbor.Proofs.Encoding

namespace TypedCbor

-- What a value comes to with nothing open around it.
def Value.alone (config : Config) (value : Value) (markers : Markers) : Except Error Bytes :=
  Encoder.output <$> value.encode config { markers }

-- An encoder before and after it has taken in these bytes as one item. No structure was opened or
-- closed and none counts more elements, and what a descriptor said of the item is used up.
structure Encoder.Gains (before : Encoder) (bytes : Bytes) (after : Encoder) : Prop where
  depth : after.depth = before.depth
  counts : after.stack.map Frame.count = before.stack.map Frame.count
  cleared : after.markers = {}
  innermost : ∀ frame outer, before.stack = frame :: outer →
    after.stack = { frame with bytes := frame.bytes ++ bytes } :: outer ∧ after.output = before.output
  outermost : before.stack = [] → after.stack = [] ∧ after.output = before.output ++ bytes

theorem Encoder.gains_put (encoder : Encoder) (bytes : Bytes) :
    encoder.Gains bytes (encoder.put bytes) := by
  rcases encoder with ⟨output, stack, markers⟩
  cases stack with
  | nil =>
    refine ⟨rfl, rfl, rfl, ?_, fun _ => ⟨rfl, rfl⟩⟩
    intro frame outer opened
    cases opened
  | cons frame outer =>
    refine ⟨rfl, rfl, rfl, ?_, ?_⟩
    · intro first others same
      cases same
      exact ⟨rfl, rfl⟩
    · intro closed
      cases closed

def Element.elides (config : Config) (element : Element) (bytes : Bytes) : Bool :=
  match element.declaredDefault, config.encodeDefaults with
  | some value, false => bytes == value.encoded config element
  | _, _ => false

def Element.part (config : Config) (shape : Shape) (element : Element) (bytes : Bytes) : Option Bytes :=
  if element.elides config bytes then none else some (element.introduction config shape ++ bytes)

def arrayAlone (config : Config) (values : List Value) : Except Error Bytes :=
  (fun parts => config.framed .array parts.length parts.flatten) <$>
    values.mapM fun value => value.alone config {}

-- A sequence that is to be a byte string, some bytes of it already seen. At its first element that is
-- no byte it turns into an array, and those seen are numbers in it.
def collectedAlone (config : Config) : List Value → Bytes → Except Error Bytes
  | [], collected => .ok (Wire.bytes collected)
  | value :: values, collected =>
    match value.asByte with
    | some byte => collectedAlone config values (collected ++ [byte])
    | none =>
      (fun parts =>
        config.framed .array (collected.length + parts.length)
          (collected.flatMap (fun byte => Wire.unsigned byte.toUInt64) ++ parts.flatten)) <$>
        (value :: values).mapM fun value => value.alone config {}

def sequenceAlone (config : Config) (values : List Value) (markers : Markers) : Except Error Bytes :=
  if markers.byteString || config.byteStrings then collectedAlone config values []
  else arrayAlone config values

-- What a value comes to, made of what its parts come to alone. The markers reach a part only where
-- the value is nothing but a wrapper of it; in a record each field has those of its own element.
def Value.composed (config : Config) : Value → Markers → Except Error Bytes
  | .bool value, _ => .ok (Wire.bool value)
  | .int kind n, _ => kind.item n
  | .single bits, _ => .ok (Wire.single config.floatForm bits)
  | .double bits, _ => .ok (Wire.double config.floatForm bits)
  | .char c, _ => .ok (Wire.unsigned c.val.toUInt64)
  | .text content, _ | .unitVariant content, _ => .ok (Wire.text content)
  | .bytes content, _ => .ok (Wire.bytes content)
  | .unit, markers | .none, markers => .ok (if markers.object then Wire.emptyMap else Wire.null)
  | .some value, markers | .newtype value, markers | .visited _ value, markers =>
    value.alone config markers
  | .seq items, markers =>
    if markers.byteString || config.byteStrings then
      match items.mapM Value.asByte with
      | Option.some content => .ok (Wire.bytes content)
      | Option.none => arrayAlone config items
    else arrayAlone config items
  | .tuple items, _ => arrayAlone config items
  | .map entries, _ =>
    (fun parts => config.framed .map parts.length parts.flatten) <$>
      entries.mapM fun entry => do
        return (← entry.1.alone config {}) ++ (← entry.2.alone config {})
  | .record name fields, _ =>
    let shape := config.shape name .keyed []
    (fun parts =>
      shape.enclosed config ⟨(parts.filterMap id).flatten, (parts.filterMap id).length⟩) <$>
      fields.mapM fun field =>
        (shape.elementNamed field.1).part config shape <$>
          field.2.alone config (shape.elementNamed field.1).markers
  | .variant name content, _ =>
    (fun bytes => config.framed .array 2 (Wire.text name ++ bytes)) <$> content.alone config {}
  | .embedded value _, _ => Wire.bytes <$> value.alone config {}

def Value.Composes (config : Config) (value : Value) : Prop :=
  ∀ encoder, value.encode config encoder =
    (fun bytes => encoder.put bytes) <$> value.alone config encoder.markers

-- The octets that a value holds directly are octets, as all that a program can hold are.
def Value.HoldsOctets (value : Value) : Prop :=
  ∀ n, Value.int .u8 n ∈ value.parts → IntKind.u8.holds n = true

theorem Value.alone_eq {config : Config} {value : Value} {bytes : Markers → Except Error Bytes}
    (puts : ∀ encoder, value.encode config encoder =
      (fun bytes => encoder.put bytes) <$> bytes encoder.markers) (markers : Markers) :
    value.alone config markers = bytes markers := by
  unfold Value.alone
  rw [puts]
  cases bytes markers <;> rfl

theorem Value.composes_of {config : Config} {value : Value} {bytes : Markers → Except Error Bytes}
    (puts : ∀ encoder, value.encode config encoder =
      (fun bytes => encoder.put bytes) <$> bytes encoder.markers) : value.Composes config := by
  intro encoder
  rw [alone_eq puts]
  exact puts encoder

namespace Encoder

variable {config : Config} {shape : Shape}

theorem encodeItems_composes {values : List Value} (each : ∀ value ∈ values, value.Composes config)
    (outer : Encoder) (bytes : Bytes) (count : Nat) :
    encodeItems config values (outer.inside bytes count) =
      (fun parts => outer.inside (bytes ++ parts.flatten) (count + parts.length)) <$>
        values.mapM fun value => value.alone config {} := by
  induction values generalizing bytes count with
  | nil =>
    change _ = Except.ok (outer.inside (bytes ++ []) count)
    rw [List.append_nil]
    rfl
  | cons value values ih =>
    obtain ⟨here, others⟩ := List.forall_mem_cons.mp each
    rw [encodeItems, List.mapM_cons, next, announce_anonymous rfl, here]
    change (_ <$> value.alone config {}) >>= _ = _
    cases value.alone config {} with
    | error e => rfl
    | ok part =>
      simp only [ok_map, ok_bind, put_inside, ih others]
      cases values.mapM fun value => value.alone config {} with
      | error e => rfl
      | ok parts =>
        change _ = Except.ok (outer.inside (bytes ++ (part :: parts).flatten) (count + (part :: parts).length))
        rw [List.flatten_cons, List.length_cons, ok_map, List.append_assoc, Nat.add_assoc, Nat.add_comm 1]

theorem replay_composes (collected : Bytes) (outer : Encoder) :
    outer.unmarked.replay config collected =
      outer.inside (collected.flatMap fun byte => Wire.unsigned byte.toUInt64) collected.length := by
  have numbers : itemsWire (collected.map fun byte => .ofWord byte.toUInt64) =
      collected.flatMap fun byte => Wire.unsigned byte.toUInt64 := by
    induction collected with
    | nil => rfl
    | cons byte collected ih => rw [List.map_cons, itemsWire, ih, Item.wire_ofWord, List.flatMap_cons]
  refine (replay_eq collected outer [] 0).trans ?_
  rw [numbers, List.nil_append, Nat.zero_add]

theorem collectItems_composes {values : List Value} (each : ∀ value ∈ values, value.Composes config)
    (collected : Bytes) (outer : Encoder) :
    collectItems config values collected outer.unmarked =
      (fun bytes => outer.put bytes) <$> collectedAlone config values collected := by
  induction values generalizing collected with
  | nil => rfl
  | cons value values ih =>
    rw [collectItems, collectedAlone]
    cases value.asByte with
    | some byte => exact ih (fun other member => each other (List.mem_cons_of_mem _ member)) _
    | none =>
      -- What is left is written as any sequence is, behind the numbers.
      have rest := encodeItems_composes each outer
        (collected.flatMap fun byte => Wire.unsigned byte.toUInt64) collected.length
      rw [encodeItems, ← replay_composes] at rest
      dsimp only
      rw [← bind_assoc, rest]
      cases (value :: values).mapM fun value => value.alone config {} <;> rfl

theorem encodeArray_composes {values : List Value} (each : ∀ value ∈ values, value.Composes config)
    (outer : Encoder) :
    (encodeItems config values outer.unmarked.beginStructure >>= fun encoder =>
        encoder.endStructure config .list) =
      (fun bytes => outer.put bytes) <$> arrayAlone config values := by
  change encodeItems config values (outer.inside [] 0) >>= _ = _
  rw [encodeItems_composes each, arrayAlone]
  cases values.mapM fun value => value.alone config {} with
  | error e => rfl
  | ok parts =>
    simp only [ok_map, ok_bind, endStructure_inside, List.nil_append, Nat.zero_add]
    rfl

theorem encodeEntries_composes {entries : List (Value × Value)}
    (each : ∀ entry ∈ entries, entry.1.Composes config ∧ entry.2.Composes config)
    (outer : Encoder) (bytes : Bytes) (count : Nat) :
    encodeEntries config entries (outer.inside bytes count) =
      (fun parts => outer.inside (bytes ++ parts.flatten) (count + 2 * parts.length)) <$>
        entries.mapM fun entry => do
          return (← entry.1.alone config {}) ++ (← entry.2.alone config {}) := by
  induction entries generalizing bytes count with
  | nil =>
    change _ = Except.ok (outer.inside (bytes ++ []) count)
    rw [List.append_nil]
    rfl
  | cons entry entries ih =>
    obtain ⟨⟨first, second⟩, others⟩ := List.forall_mem_cons.mp each
    rcases entry with ⟨key, value⟩
    rw [encodeEntries, List.mapM_cons, next, announce_anonymous rfl, first]
    change (_ <$> key.alone config {}) >>= _ = _
    cases key.alone config {} with
    | error e => rfl
    | ok keyBytes =>
      simp only [ok_map, ok_bind, put_inside]
      rw [next, announce_anonymous rfl, second]
      change (_ <$> value.alone config {}) >>= _ = _
      cases value.alone config {} with
      | error e => rfl
      | ok valueBytes =>
        simp only [ok_map, ok_bind, put_inside, ih others]
        cases entries.mapM fun entry => do
          return (← entry.1.alone config {}) ++ (← entry.2.alone config {}) with
        | error e => rfl
        | ok parts =>
          change Except.ok _ = Except.ok _
          simp only [List.flatten_cons, List.length_cons, List.append_assoc]
          congr 2
          omega

theorem detached_composes {value : Value} (composes : value.Composes config) (element : Element)
    (outer : Encoder) (bytes : Bytes) (count : Nat) :
    (outer.inside bytes count).detached element (value.encode config) =
      (fun own => (own, outer.inside bytes count)) <$> value.alone config element.markers := by
  unfold detached
  rw [composes]
  dsimp only
  cases value.alone config element.markers <;> rfl

theorem field_composes {value : Value} (composes : value.Composes config) (element : Element)
    (outer : Encoder) (bytes : Bytes) (count : Nat) :
    (outer.inside bytes count).field config shape element (value.encode config) =
      (fun own =>
        match element.part config shape own with
        | none => outer.inside bytes count
        | some part => outer.inside (bytes ++ part) (count + 1)) <$> value.alone config element.markers := by
  unfold field Element.part Element.elides
  have direct : value.encode config ((outer.inside bytes count).announce config shape element) =
      (fun own => outer.inside (bytes ++ (element.introduction config shape ++ own)) (count + 1)) <$>
        value.alone config element.markers := by
    simp only [composes _, announce_put]
    rfl
  cases element.declaredDefault with
  | none => exact direct
  | some standard =>
    cases defaults : config.encodeDefaults with
    | true => exact direct
    | false =>
      simp only [detached_composes composes, offer, defaults]
      cases value.alone config element.markers with
      | error e => rfl
      | ok own =>
        simp only [ok_map, ok_bind]
        by_cases same : (own == standard.encoded config element) = true
        · simp only [same, Bool.not_false, Bool.and_true, if_true]
          rfl
        · simp only [same, Bool.not_false, Bool.and_true, Bool.false_eq_true, if_true, if_false,
            announce_put]
          rfl

theorem encodeFields_composes {fields : List (String × Value)}
    (each : ∀ field ∈ fields, field.2.Composes config) (outer : Encoder) (bytes : Bytes) (count : Nat) :
    encodeFields config shape fields (outer.inside bytes count) =
      (fun parts => outer.inside (bytes ++ (parts.filterMap id).flatten)
          (count + (parts.filterMap id).length)) <$>
        fields.mapM fun field =>
          (shape.elementNamed field.1).part config shape <$>
            field.2.alone config (shape.elementNamed field.1).markers := by
  induction fields generalizing bytes count with
  | nil =>
    change _ = Except.ok (outer.inside (bytes ++ []) count)
    rw [List.append_nil]
    rfl
  | cons field fields ih =>
    obtain ⟨here, others⟩ := List.forall_mem_cons.mp each
    rcases field with ⟨name, value⟩
    rw [encodeFields, List.mapM_cons, field_composes here]
    cases value.alone config (shape.elementNamed name).markers with
    | error e => rfl
    | ok own =>
      simp only [ok_map, ok_bind]
      cases (shape.elementNamed name).part config shape own with
      | none =>
        simp only [ih others]
        cases fields.mapM fun field => (shape.elementNamed field.1).part config shape <$>
          field.2.alone config (shape.elementNamed field.1).markers <;> rfl
      | some part =>
        simp only [ih others]
        cases fields.mapM fun field => (shape.elementNamed field.1).part config shape <$>
          field.2.alone config (shape.elementNamed field.1).markers with
        | error e => rfl
        | ok parts =>
          change Except.ok _ = Except.ok _
          simp only [List.filterMap_cons, id_eq, List.flatten_cons, List.append_assoc, List.length_cons]
          congr 2
          omega

theorem puts_map {entries : List (Value × Value)}
    (each : ∀ entry ∈ entries, entry.1.Composes config ∧ entry.2.Composes config) (outer : Encoder) :
    (Value.map entries).encode config outer =
      (fun bytes => outer.put bytes) <$> (Value.map entries).composed config outer.markers := by
  rw [Value.encode, Value.composed]
  change encodeEntries config entries (outer.inside [] 0) >>= _ = _
  rw [encodeEntries_composes each]
  cases entries.mapM fun entry => do
    return (← entry.1.alone config {}) ++ (← entry.2.alone config {}) with
  | error e => rfl
  | ok parts =>
    simp only [ok_map, ok_bind, endStructure_inside, Shape.enclosed, List.nil_append, Nat.zero_add,
      Nat.mul_div_cancel_left _ Nat.two_pos]
    rfl

theorem puts_record (name : String) {fields : List (String × Value)}
    (each : ∀ field ∈ fields, field.2.Composes config) (outer : Encoder) :
    (Value.record name fields).encode config outer =
      (fun bytes => outer.put bytes) <$> (Value.record name fields).composed config outer.markers := by
  rw [Value.encode, Value.composed]
  change encodeFields config (config.shape name .keyed []) fields (outer.inside [] 0) >>= _ = _
  rw [encodeFields_composes each]
  cases fields.mapM fun field => ((config.shape name .keyed []).elementNamed field.1).part config
    (config.shape name .keyed []) <$>
      field.2.alone config ((config.shape name .keyed []).elementNamed field.1).markers with
  | error e => rfl
  | ok parts => simp only [ok_map, ok_bind, endStructure_inside, List.nil_append, Nat.zero_add]

theorem puts_variant (name : String) {content : Value} (composes : content.Composes config)
    (outer : Encoder) :
    (Value.variant name content).encode config outer =
      (fun bytes => outer.put bytes) <$> (Value.variant name content).composed config outer.markers := by
  rw [Value.encode, Value.composed, openVariant_eq, composes]
  change (_ <$> content.alone config {}) >>= _ = _
  cases content.alone config {} <;> rfl

theorem puts_embedded (serialized : Option Bytes) {value : Value} (composes : value.Composes config)
    (outer : Encoder) :
    (Value.embedded value serialized).encode config outer =
      (fun bytes => outer.put bytes) <$>
        (Value.embedded value serialized).composed config outer.markers := by
  rw [Value.encode, Value.composed, composes]
  change (_ <$> value.alone config {}) >>= _ = _
  cases value.alone config {} <;> rfl

theorem puts_composed {value : Value} (each : ∀ part ∈ value.parts, part.Composes config)
    (plain : ∀ items, value ≠ .seq items) (outer : Encoder) :
    value.encode config outer =
      (fun bytes => outer.put bytes) <$> value.composed config outer.markers := by
  cases value with
  | bool | single | double | char | text | bytes | unitVariant => rfl
  | int kind n =>
    rw [Value.encode, Value.composed]
    cases kind.item n <;> rfl
  | unit | none => rfl
  | some value | newtype value => exact each value (List.mem_singleton_self value) outer
  | visited how value => exact each value (List.mem_singleton_self value) outer
  | seq items => exact absurd rfl (plain items)
  | tuple items => exact encodeArray_composes each outer
  | map entries =>
    refine puts_map (fun entry member => ⟨each _ ?key, each _ ?value⟩) outer
    case key => exact mem_flattened.mpr ⟨entry, member, .inl rfl⟩
    case value => exact mem_flattened.mpr ⟨entry, member, .inr rfl⟩
  | record name fields =>
    exact puts_record name (fun field member => each field.2 (List.mem_map_of_mem member)) outer
  | variant name content => exact puts_variant name (each content (List.mem_singleton_self content)) outer
  | embedded value serialized =>
    exact puts_embedded serialized (each value (List.mem_singleton_self value)) outer

theorem puts_seq {items : List Value} (each : ∀ item ∈ items, item.Composes config) (outer : Encoder) :
    (Value.seq items).encode config outer =
      (fun bytes => outer.put bytes) <$> sequenceAlone config items outer.markers := by
  rw [Value.encode, sequenceAlone]
  split
  · exact collectItems_composes each [] outer
  · exact encodeArray_composes each outer

theorem composes (config : Config) (value : Value) : value.Composes config := by
  induction value using Value.induction with
  | step value ih =>
    by_cases sequence : ∃ items, value = .seq items
    · obtain ⟨items, rfl⟩ := sequence
      have each : ∀ item ∈ items, item.Composes config := ih
      exact Value.composes_of (puts_seq each)
    · exact Value.composes_of (puts_composed ih fun items same => sequence ⟨items, same⟩)

end Encoder

theorem Value.alone_seq (config : Config) (items : List Value) (markers : Markers) :
    (Value.seq items).alone config markers = sequenceAlone config items markers :=
  alone_eq (Encoder.puts_seq fun item _ => Encoder.composes config item) markers

theorem Value.alone_of_plain (config : Config) {value : Value} (plain : ∀ items, value ≠ .seq items)
    (markers : Markers) : value.alone config markers = value.composed config markers :=
  alone_eq (Encoder.puts_composed (fun part _ => Encoder.composes config part) plain) markers

theorem Value.alone_octet {value : Value} {byte : UInt8} (config : Config) (octet : value.asByte = Option.some byte)
    (holds : ∀ n, value = .int .u8 n → IntKind.u8.holds n = true) :
    value.alone config {} = .ok (Wire.unsigned byte.toUInt64) := by
  cases value with
  | int kind n =>
    cases kind with
    | u8 =>
      cases octet
      have range := holds n rfl
      have below : n < 256 := of_decide_eq_true (Bool.and_eq_true_iff.mp range).2
      have same : UInt64.ofNat n.toNat = (UInt8.ofNat n.toNat).toUInt64 := by
        have small : n.toNat < 256 := by omega
        rw [← UInt64.toNat_inj]
        simp only [UInt64.toNat_ofNat', UInt8.toNat_toUInt64, UInt8.toNat_ofNat']
        omega
      exact congrArg (fun word => Except.ok (Wire.unsigned word)) same
    | _ => cases octet
  | _ => cases octet

theorem collectedAlone_eq (config : Config) {values : List Value}
    (holds : ∀ n, Value.int .u8 n ∈ values → IntKind.u8.holds n = true) (collected : Bytes) :
    collectedAlone config values collected =
      match values.mapM Value.asByte with
      | some content => .ok (Wire.bytes (collected ++ content))
      | none =>
        (fun parts =>
          config.framed .array (collected.length + parts.length)
            (collected.flatMap (fun byte => Wire.unsigned byte.toUInt64) ++ parts.flatten)) <$>
          values.mapM fun value => value.alone config {} := by
  induction values generalizing collected with
  | nil => exact congrArg (fun content => Except.ok (Wire.bytes content)) (List.append_nil _).symm
  | cons value values ih =>
    have others (n : Int) (member : Value.int .u8 n ∈ values) : IntKind.u8.holds n = true :=
      holds n (List.mem_cons_of_mem _ member)
    rw [collectedAlone]
    cases octet : value.asByte with
    | none =>
      have mixed : (value :: values).mapM Value.asByte = none := by rw [List.mapM_cons, octet]; rfl
      rw [mixed]
    | some byte =>
      have own : value.alone config {} = .ok (Wire.unsigned byte.toUInt64) :=
        Value.alone_octet config octet fun n same => holds n (same ▸ List.mem_cons_self)
      have bytes : (value :: values).mapM Value.asByte = (byte :: ·) <$> values.mapM Value.asByte := by
        rw [List.mapM_cons, octet]
        cases values.mapM Value.asByte <;> rfl
      rw [bytes]
      dsimp only
      rw [ih others]
      cases values.mapM Value.asByte with
      | some content =>
        exact congrArg (fun all => Except.ok (Wire.bytes all)) (List.append_assoc collected [byte] content)
      | none =>
        dsimp only [Functor.map, Option.map]
        rw [List.mapM_cons, own]
        cases values.mapM fun value => value.alone config {} with
        | error e => rfl
        | ok parts =>
          change Except.ok _ = Except.ok _
          simp only [List.length_append, List.length_cons, List.length_nil, List.flatMap_append,
            List.flatMap_singleton, List.flatten_cons, List.append_assoc, Nat.add_assoc, Nat.add_comm 1]

theorem Value.alone_composed (config : Config) {value : Value} (octets : value.HoldsOctets)
    (markers : Markers) : value.alone config markers = value.composed config markers := by
  by_cases sequence : ∃ items, value = .seq items
  · obtain ⟨items, rfl⟩ := sequence
    have octets : ∀ n, Value.int .u8 n ∈ items → IntKind.u8.holds n = true := octets
    rw [Value.alone_seq, Value.composed, sequenceAlone, collectedAlone_eq config octets]
    split
    · cases items.mapM Value.asByte with
      | some content => rfl
      | none =>
        simp only [List.length_nil, Nat.zero_add, List.flatMap_nil, List.nil_append]
        rfl
    · rfl
  · exact Value.alone_of_plain config (fun items same => sequence ⟨items, same⟩) markers

-- Whatever is open, a value adds to it what it comes to alone, and touches nothing else. What it
-- comes to alone is made of what its parts come to alone: a header, their bytes in order, each with
-- the key and tags that introduce it, and a break where the header has no count.
theorem Encoder.encode_composes (config : Config) :
    (∀ (value : Value) (encoder : Encoder),
      value.encode config encoder =
        (fun bytes => encoder.put bytes) <$> value.alone config encoder.markers) ∧
      (∀ (encoder : Encoder) (bytes : Bytes), encoder.Gains bytes (encoder.put bytes)) ∧
      ∀ value : Value, value.HoldsOctets →
        ∀ markers, value.alone config markers = value.composed config markers := by
  refine ⟨?_, ?_, ?_⟩
  · exact fun value => composes config value
  · exact gains_put
  · exact fun value octets => Value.alone_composed config octets

def Config.readings : Config :=
  { descriptors := [⟨"Reading", .keyed, none,
      [⟨"at", some 1, [], [], false, false, some (.integer 0)⟩,
        ⟨"octets", some 2, [], [24], true, false, none⟩]⟩] }

def Value.reading : Value :=
  .record "Reading" [("at", .int .i32 0), ("octets", .seq [.int .u8 1, .int .u8 2])]

theorem Encoder.encode_reading :
    Value.reading.encode Config.readings ⟨[], [⟨[0x05], 2⟩, ⟨[], 1⟩], ⟨true, true⟩⟩ =
        .ok ⟨[], [⟨[0x05, 0xbf, 0x02, 0xd8, 0x18, 0x42, 0x01, 0x02, 0xff], 2⟩, ⟨[], 1⟩], {}⟩ ∧
      (Value.seq [.int .u8 1, .bool true]).HoldsOctets ∧
      (Value.seq [.int .u8 1, .bool true]).alone Config.readings ⟨true, false⟩ =
        .ok [0x9f, 0x01, 0xf5, 0xff] := by
  obtain ⟨puts, -, made⟩ := encode_composes Config.readings
  have octets : (Value.seq [.int .u8 1, .bool true]).HoldsOctets := by
    intro n member
    cases member with
    | head => rfl
    | tail _ member => cases List.mem_singleton.mp member
  refine ⟨?_, octets, ?_⟩
  · rw [puts]
    rfl
  · rw [made _ octets]
    rfl

end TypedCbor
